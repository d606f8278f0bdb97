import DistributedSns.Client.Model

/-!
# What is typed reaches the server

A script is what a user wants: calls in any spelling, lines which ask for nothing, and at last a chat. The client sends
what the script says and nothing else. What is typed after the chat is never read, since the server does not end a
stream of its own accord.
-/

namespace DistributedSns.Client

open Server (Request Message)

/-! ## Scripts -/

/-- An event without its time. -/
inductive Intent where
  | call (rpc : Rpc) (arguments : List Str)
  | timeline
  | write (msg : Str)

def Intent.event (username : Str) (time : Int) : Intent → Event
  | .call rpc arguments => .call rpc { username, arguments, timestamp := { seconds := time, nanos := 0 } }
  | .timeline => .Timeline
  | .write msg => .write { username, msg, timestamp := { seconds := time, nanos := 0 } }

/-- The intents sent one after the other, each at the time it is sent. -/
def sent (w : World) (username : Str) : List Event → List Intent → List Event
  | es, [] => es
  | es, i :: is => sent w username (es ++ [i.event username (w.time es)]) is

/-- A line for which nothing is sent: no command, a command without its argument, or an unknown one. -/
inductive Ignored : Str → Prop where
  | word {word : Str} (hspace : ' ' ∉ word) (hlist : toUpperCase word ≠ LIST) (htimeline : toUpperCase word ≠ TIMELINE) :
      Ignored word
  | noArgument {word : Str} (hspace : ' ' ∉ word) : Ignored (word ++ [' '])
  | unknown {word arg : Str} (hspace : ' ' ∉ word) (harg : arg ≠ []) (hfollow : toUpperCase word ≠ FOLLOW)
      (hunfollow : toUpperCase word ≠ UNFOLLOW) (hlist : toUpperCase word ≠ LIST) : Ignored (word ++ ' ' :: arg)

inductive Item where
  | follow (word user : Str) (hword : toUpperCase word = FOLLOW) (huser : user ≠ [])
  | unfollow (word user : Str) (hword : toUpperCase word = UNFOLLOW) (huser : user ≠ [])
  | list (word : Str) (hword : toUpperCase word = LIST)
  /-- an argument of `LIST` is left out of account -/
  | listArgument (word arg : Str) (hword : toUpperCase word = LIST) (harg : arg ≠ [])
  | ignored (line : Str) (h : Ignored line)

namespace Item

def line : Item → Str
  | follow word user _ _ => word ++ ' ' :: user
  | unfollow word user _ _ => word ++ ' ' :: user
  | list word _ => word
  | listArgument word arg _ _ => word ++ ' ' :: arg
  | ignored line _ => line

end Item

/-- The messages made of a line which is typed in the chat. -/
def pieces (line : Str) : List Str :=
  if line = [] then [] else line.take (MAX_DATA - 1) :: pieces (line.drop (MAX_DATA - 1))
termination_by line.length
decreasing_by
  have := List.length_pos_iff.mpr ‹¬line = []›
  simp only [MAX_DATA, List.length_drop]
  omega

/-- A character which is part of a message. -/
def Plain (line : Str) : Prop := ∀ a ∈ line, a ≠ '\n' ∧ a ≠ '\x00'

structure Chat where
  word : Str
  hword : toUpperCase word = TIMELINE
  typed : List Str
  plain : ∀ line ∈ typed, Plain line
  stays : ∀ line ∈ typed, EXIT_CHAT ∉ pieces line

namespace Chat

def lines (chat : Chat) : List Str := chat.word :: (chat.typed ++ [EXIT_CHAT])

end Chat

/-! ## Lines -/

section

variable {word arg name : Str}

end

/-! ## Commands -/

section

variable {lines : List Str} {word arg : Str} {c c' : Console}

end

/-! ## Runs of the bash -/

section

variable {w : World} {username : Str} {c c₁ c' : Console} {cmd : Str}

/-- With enough fuel the client comes to wait at the second console. -/
def Waits (w : World) (username : Str) (c c' : Console) : Prop :=
  ∃ n, ∀ fuel, n ≤ fuel → runClientBash w username fuel c = .ok c'

theorem Waits.congr (h : getCommand c = getCommand c₁) (hw : Waits w username c₁ c') : Waits w username c c' := by
  obtain ⟨n, hn⟩ := hw
  refine ⟨n + 1, ?_⟩
  rintro (_ | fuel) hfuel
  · cases hfuel
  · rw [← hn (fuel + 1) (by omega), runClientBash, runClientBash, h]

theorem Waits.command (h : getCommand c = (c₁, some cmd)) (hcmd : cmd ≠ TIMELINE)
    (hw : Waits w username ((processCommand w username cmd c₁).1.print
      (displayCommandReply username cmd (processCommand w username cmd c₁).2)) c') : Waits w username c c' := by
  obtain ⟨n, hn⟩ := hw
  refine ⟨n + 1, ?_⟩
  rintro (_ | fuel) hfuel
  · cases hfuel
  · have hno : ¬ ((processCommand w username cmd c₁).2.grpc_status.code = .ok ∧ cmd = TIMELINE) := fun hand => hcmd hand.2
    rw [runClientBash, h]
    simp only [if_neg hno]
    exact hn fuel (by omega)

/-- A run on the remaining lines is a run on all lines, whatever has been printed. -/
def Reduces (w : World) (username : Str) (c : Console) (lines : List Str) (es : List Event) : Prop :=
  ∃ out, ∀ c', Waits w username ⟨lines, es, out⟩ c' → Waits w username c c'

/-- A command for which these intents are sent. -/
theorem Reduces.command {lines : List Str} {es : List Event} {out : Str} {is : List Intent}
    (h : getCommand c = (⟨lines, es, out⟩, some cmd)) (hcmd : cmd ≠ TIMELINE)
    (hprocess : ∃ out' reply, processCommand w username cmd ⟨lines, es, out⟩ = (⟨lines, sent w username es is, out'⟩, reply)) :
    Reduces w username c lines (sent w username es is) := by
  obtain ⟨out', reply, hprocess⟩ := hprocess
  refine ⟨out' ++ displayCommandReply username cmd reply, fun c' hw => Waits.command h hcmd ?_⟩
  rw [hprocess]
  exact hw

end

/-! ## The chat -/

section

variable {w : World} {username line : Str} {lines : List Str}

theorem pieces_nil : pieces [] = [] := by rw [pieces, if_pos rfl]

/-- The pieces fit the buffer. -/
theorem length_of_mem_pieces {msg : Str} (h : msg ∈ pieces line) : msg.length < MAX_DATA := by
  fun_induction pieces line with
  | case1 => cases h
  | case2 line hline ih =>
      rcases List.mem_cons.mp h with rfl | h
      · rw [List.length_take, MAX_DATA]
        omega
      · exact ih h

/-- No character is lost. -/
theorem flatten_pieces (line : Str) : (pieces line).flatten = line := by
  fun_induction pieces line with
  | case1 => rfl
  | case2 line hline ih => rw [List.flatten_cons, ih, List.take_append_drop]

/-- With enough fuel the thread which writes comes to its end. -/
def Writes (w : World) (username : Str) (c c' : Console) : Prop :=
  ∃ n, ∀ fuel, n ≤ fuel → writerLoop w username fuel c = .ok (c', true)

variable {c c₁ c' : Console} {msg : Str}

theorem Writes.congr (h : getPostMessage c = getPostMessage c₁) (hw : Writes w username c₁ c') :
    Writes w username c c' := by
  obtain ⟨n, hn⟩ := hw
  refine ⟨n + 1, ?_⟩
  rintro (_ | fuel) hfuel
  · cases hfuel
  · rw [← hn (fuel + 1) (by omega), writerLoop, writerLoop, h]

theorem Writes.exit (h : getPostMessage c = (c', some EXIT_CHAT)) : Writes w username c c' := by
  refine ⟨1, ?_⟩
  rintro (_ | fuel) hfuel
  · cases hfuel
  · rw [writerLoop, h]
    rfl

theorem Writes.message (h : getPostMessage c = (c₁, some msg)) (hmsg : msg ≠ EXIT_CHAT)
    (hwritten : w.written (c₁.send (.write (makeMessage w username c₁ msg))).events = true)
    (hw : Writes w username (c₁.send (.write (makeMessage w username c₁ msg))) c') : Writes w username c c' := by
  obtain ⟨n, hn⟩ := hw
  refine ⟨n + 1, ?_⟩
  rintro (_ | fuel) hfuel
  · cases hfuel
  · rw [writerLoop, h]
    simp only [if_neg hmsg, hwritten, ↓reduceIte]
    exact hn fuel (by omega)

end

/-! ## Whole sessions -/

section

variable {w : World} {username : Str}

theorem Waits.timeline {c c₁ c' : Console} (h : getCommand c = (c₁, some TIMELINE))
    (hw : ∃ n, ∀ fuel, n ≤ fuel →
      processTimeline w username fuel (c₁.print (displayCommandReply username TIMELINE {})) = .ok (c', false)) :
    Waits w username c c' := by
  obtain ⟨n, hn⟩ := hw
  refine ⟨n + 1, ?_⟩
  rintro (_ | fuel) hfuel
  · cases hfuel
  · have hprocess : processCommand w username TIMELINE c₁ = (c₁, {}) := rfl
    rw [runClientBash, h]
    simp only [hprocess]
    exact bind_eq_ok.mpr ⟨_, hn fuel (by omega), rfl⟩

end

end DistributedSns.Client
