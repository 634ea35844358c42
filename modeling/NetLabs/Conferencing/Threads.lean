import NetLabs.Conferencing.Link

/-!
# The threads of the client (`client/client.c`)

The main thread reads lines, and every connection has a thread that runs `server_message_handler`.  A thread tests the
flags at the head of its loop and then waits in `recv`, so it takes one more message after the client has logged out.
What the server sends, and when, is up to the server.

The threads only share the flags of `Client`, and each step here is one turn of one of them: a typed line, a message, or
the head of a handler's loop.
-/

namespace Conferencing

open CText Transition

/-- Where a thread in `server_message_handler` is. -/
inductive HandlerThread
  | head
  | receiving
  | ended
  deriving DecidableEq

/-- The client's program: its flags, the slots of `thread` below `thread_count`, and `termination_signal`.  A slot is empty
when `login` or `user_registration` returned before it created a thread. -/
structure Program where
  client : Client
  threads : List (Option HandlerThread)
  terminationSignal : Bool

/-- `thread_number`. -/
abbrev threadNumber : Nat := 10

/-- A typed line, with whether a connection can be opened; the head of the loop of `main` when no slot is left; the signal
handler; and what happens to thread `k`. -/
inductive ProgramEvent
  | typed (locals : Locals) (line : Bytes) (connected : Bool)
  | full
  | interrupt
  | head (k : Nat)
  | message (k : Nat) (chunk : Bytes)
  | closed (k : Nat)

namespace Program

/-- `login` and `user_registration`, and the `thread_count++` behind them. -/
def connect (p : Program) (request : UInt32) (parameters : List Bytes) (connected : Bool) : Option Program :=
  match accessRequest request (parameters.getD 0 []) (parameters.getD 1 []) with
  -- a line that is refused takes a slot of `thread` all the same
  | some [] => some { p with threads := p.threads ++ [none] }
  | some _ =>
    if connected then
      some { p with
        client := { p.client with serverConnectionStatus := .online }
        threads := p.threads ++ [some .head] }
    else some { p with threads := p.threads ++ [none] }
  | none => none

/-- What a thread does with its flags when the connection is lost, and `terminate_program` before its end. -/
def disconnect (c : Client) : Option Client :=
  if c.serverConnectionStatus = .online then c.logout.map Prod.fst else some c

/-- `terminate_program` and `sig_kill_handler`, which then wait for the threads. -/
def terminate (p : Program) : Option Program :=
  (disconnect p.client).map fun client => { p with client := client, terminationSignal := true }

def next (p : Program) : ProgramEvent → Option Program
  | .typed locals line connected =>
    if p.terminationSignal ∨ p.threads.length = threadNumber then none
    else match p.client.enter locals line with
      | some (client, .send _) => some { p with client := client }
      | some (client, .quit _) => some { p with client := client, terminationSignal := true }
      | some (client, .connect request parameters) => connect { p with client := client } request parameters connected
      | none => none
  | .full => if p.terminationSignal = false ∧ p.threads.length = threadNumber then p.terminate else none
  | .interrupt => p.terminate
  | .head k =>
    if p.threads[k]? = some (some .head) then
      let goesOn := p.client.serverConnectionStatus = .online ∧ p.terminationSignal = false
      some { p with threads := p.threads.set k (some (if goesOn then .receiving else .ended)) }
    else none
  | .message k chunk =>
    if p.threads[k]? = some (some .receiving) then
      (p.client.receive chunk).map fun (client, goesOn) =>
        { p with client := client, threads := p.threads.set k (some (if goesOn then .head else .ended)) }
    else none
  | .closed k =>
    if p.threads[k]? = some (some .receiving) then
      (disconnect p.client).map fun client => { p with client := client, threads := p.threads.set k (some .ended) }
    else none

/-- The program as it starts; `name` is all zeroes. -/
def start (name : CStr maxName) : Program := ⟨⟨name, .offline, .offline, .offline, .user⟩, [], false⟩

end Program

/-- The runs of the program, whatever is typed and whatever the server sends. -/
def program : System Program ProgramEvent where
  init p := ∃ name : CStr maxName, name.bytes = [] ∧ p = .start name
  step p e q := p.next e = some q

namespace Client

variable {c c' : Client} {r : Reaction} {locals : Locals} {line : Bytes} {type : UInt32} {source : CStr maxName}
  {messages : List Bytes}

/-- Leaving resets the session flags when the client is in a session, and nothing otherwise. -/
private theorem leaveSession_flags (h : c.leaveSession = some (c', messages)) :
    c'.serverConnectionStatus = c.serverConnectionStatus ∧ c'.sessionStatus = .offline ∧
      c'.role = if c.sessionStatus = .offline then c.role else .user := by
  unfold leaveSession at h
  split at h
  · rename_i hsession
    cases h
    exact ⟨rfl, hsession, (if_pos hsession).symm⟩
  · rename_i hsession
    obtain ⟨bytes, -, h⟩ := Option.map_eq_some_iff.1 h
    cases h
    exact ⟨rfl, rfl, (if_neg hsession).symm⟩

theorem logout_flags (h : c.logout = some (c', messages)) :
    c'.Out ∧ c'.sessionStatus = .offline ∧ c'.role = if c.sessionStatus = .offline then c.role else .user := by
  refine ⟨out_of_logout h, ?_⟩
  obtain ⟨⟨c₁, leave⟩, hleave, h⟩ := Option.bind_eq_some_iff.1 h
  obtain ⟨exit, -, h⟩ := Option.bind_eq_some_iff.1 h
  cases h
  exact (leaveSession_flags hleave).2

theorem enter_of_logsOut (hserver : c.serverConnectionStatus = .online) (hline : LogsOut line)
    (h : c.enter locals line = some (c', r)) :
    ∃ messages, c.logout = some (c', messages) ∧ (r = .send messages ∨ r = .quit messages) := by
  cases enters h with
  | asks _ hno => exact absurd hline (hno hserver)
  | connect _ hno => exact absurd hline hno
  | quit hoff => exact absurd (hserver.symm.trans hoff) (by decide)
  | logout _ _ h hr => exact ⟨_, h, hr⟩
  | leave _ hno => exact absurd hline hno

/-- Every other line leaves the connection as it is. -/
theorem enter_of_not_logsOut (hline : ¬ LogsOut line) (h : c.enter locals line = some (c', r)) :
    c'.serverConnectionStatus = c.serverConnectionStatus := by
  cases enters h with
  | asks h _ => exact congrArg _ h.1
  | connect => rfl
  | quit => rfl
  | logout _ hlogs => exact absurd hlogs hline
  | leave => rfl

end Client

end Conferencing
