import NetLabs.Conferencing.Threads

/-!
# Logging out

`logout` resets the flags, but for a role that the client keeps outside a session, and a thread that waits in `recv` takes
one more message afterwards.  So a client that is logged out has its flags reset as long as no message that switches one
of them on comes too late, and no connection ends with a flag that `logout` does not touch (`Clean`).
-/

namespace Conferencing

open CText Transition

namespace Client

/-- The flags as they were at the start. -/
structure Reset (c : Client) : Prop where
  verified : c.verifiedAccess = .offline
  session : c.sessionStatus = .offline
  role : c.role = .user

instance (c : Client) : Decidable c.Reset :=
  decidable_of_iff (c.verifiedAccess = .offline ∧ c.sessionStatus = .offline ∧ c.role = .user)
    ⟨fun h => ⟨h.1, h.2.1, h.2.2⟩, fun h => ⟨h.verified, h.session, h.role⟩⟩

/-- The messages that switch a flag on. -/
def switching : List UInt32 := [MsgType.loAck, MsgType.rgAck, MsgType.jnAck, MsgType.nsAck, MsgType.pmMessage]

/-- `logout` resets the flags of a client that is an administrator in a session only. -/
def LeavesNothing (c : Client) : Prop :=
  c.serverConnectionStatus = .online → c.sessionStatus = .offline → c.role = .user

section Flags

variable {c c' : Client} {type : UInt32} {source : CStr maxName} {chunk : Bytes} {goesOn : Bool} {messages : List Bytes}

private theorem logout_reset_iff (hserver : c.serverConnectionStatus = .online) (h : c.logout = some (c', messages)) :
    (c'.serverConnectionStatus = .offline → c'.Reset) ↔ c.LeavesNothing := by
  obtain ⟨⟨hverified, hoff⟩, hsession, hrole⟩ := logout_flags h
  constructor
  · intro hreset _ hout
    have hr := (hreset hoff).role
    rw [hrole, if_pos hout] at hr
    exact hr
  · refine fun hleaves _ => ⟨hverified, hsession, ?_⟩
    rw [hrole]
    split
    · exact hleaves hserver ‹_›
    · rfl

/-- Receiving a message does to the flags what its type says. -/
private theorem receive_eq (h : c.receive chunk = some (c', goesOn)) :
    ∃ type source, typeOf chunk = some type ∧ c' = c.afterMessage type source := by
  obtain ⟨⟨message, source⟩, hdec, hhandle⟩ := Option.bind_eq_some_iff.1 h
  refine ⟨message.type, source, by rw [typeOf, hdec]; rfl, ?_⟩
  have hquiet : message.type = MsgType.message → c.afterMessage message.type source = c := by
    intro htype
    rw [htype]
    rfl
  dsimp only [handle] at hhandle
  split at hhandle
  · rename_i htype
    rw [hquiet htype]
    split at hhandle
    · cases hhandle
      rfl
    · obtain ⟨_, -, hhandle⟩ := Option.map_eq_some_iff.1 hhandle
      cases hhandle
      rfl
  · split at hhandle
    · cases hhandle
    · cases hhandle
      rfl

private theorem afterMessage_connection (c : Client) (type : UInt32) (source : CStr maxName) :
    (c.afterMessage type source).serverConnectionStatus =
      if type = MsgType.loNak ∨ type = MsgType.rgNak then .offline else c.serverConnectionStatus := by
  unfold afterMessage
  by_cases hack : type = MsgType.loAck ∨ type = MsgType.rgAck
  · have hnak : ¬ (type = MsgType.loNak ∨ type = MsgType.rgNak) := by
      rcases hack with rfl | rfl <;> decide
    rw [if_pos hack, if_neg hnak]
  · rw [if_neg hack]
    split
    · rfl
    · split_ifs <;> rfl

/-- Once the flags are reset, only these messages undo it. -/
private theorem afterMessage_reset_iff (hc : c.Reset) : (c.afterMessage type source).Reset ↔ type ∉ switching := by
  constructor
  · intro h hmem
    simp only [switching, List.mem_cons, List.not_mem_nil, or_false] at hmem
    rcases hmem with rfl | rfl | rfl | rfl | rfl
    · cases h.verified
    · cases h.verified
    · cases h.session
    · cases h.session
    · cases h.role
  · intro hmem
    simp only [switching, List.mem_cons, List.not_mem_nil, or_false, not_or] at hmem
    obtain ⟨hlo, hrg, hjn, hns, hpm⟩ := hmem
    simp only [afterMessage, hlo, hrg, hjn, hns, hpm, or_self, if_false]
    split_ifs
    · exact ⟨rfl, hc.session, hc.role⟩
    · exact ⟨hc.verified, rfl, rfl⟩
    · exact ⟨hc.verified, hc.session, rfl⟩
    · exact ⟨hc.verified, rfl, hc.role⟩
    · exact hc

/-- A refused login leaves the session flags. -/
private theorem afterMessage_refused (hnak : type = MsgType.loNak ∨ type = MsgType.rgNak) :
    (c.afterMessage type source).Reset ↔ c.sessionStatus = .offline ∧ c.role = .user := by
  have hafter : c.afterMessage type source = { c with verifiedAccess := .offline, serverConnectionStatus := .offline } := by
    rcases hnak with rfl | rfl <;> rfl
  rw [hafter]
  exact ⟨fun h => ⟨h.session, h.role⟩, fun h => ⟨rfl, h.1, h.2⟩⟩

end Flags

end Client

namespace Program

/-- What a client that is logged out keeps. -/
def ResetOffline (p : Program) : Prop := p.client.serverConnectionStatus = .offline → p.client.Reset

instance (p : Program) : Decidable p.ResetOffline := inferInstanceAs (Decidable (_ → _))

/-- No flag is left on: a line, the end of the program or the loss of the connection does not log out an administrator
who is in no session; a message that comes when the client is logged out switches nothing on; and a login is not refused
while the client is in a session or an administrator. -/
def Clean (p : Program) : ProgramEvent → Prop
  | .typed _ line _ => Client.LogsOut line → p.client.LeavesNothing
  | .full => p.client.LeavesNothing
  | .interrupt => p.client.LeavesNothing
  | .head _ => True
  | .message _ chunk =>
    (p.client.serverConnectionStatus = .offline → ∀ type ∈ Client.switching, typeOf chunk ≠ some type) ∧
    (p.client.serverConnectionStatus = .online → typeOf chunk = some MsgType.loNak ∨ typeOf chunk = some MsgType.rgNak →
      p.client.sessionStatus = .offline ∧ p.client.role = .user)
  | .closed _ => p.client.LeavesNothing

section Steps

variable {p q : Program} {e : ProgramEvent} {c c' : Client}

/-- Losing the connection. -/
private theorem disconnect_reset_iff (hc : c.serverConnectionStatus = .offline → c.Reset) (h : disconnect c = some c') :
    (c'.serverConnectionStatus = .offline → c'.Reset) ↔ c.LeavesNothing := by
  unfold disconnect at h
  split at h
  · rename_i hserver
    obtain ⟨⟨c₁, messages⟩, hlogout, rfl⟩ := Option.map_eq_some_iff.1 h
    exact Client.logout_reset_iff hserver hlogout
  · rename_i hserver
    cases h
    exact ⟨fun _ hon => absurd hon hserver, fun _ => hc⟩

private theorem message_reset_iff {chunk : Bytes} {goesOn : Bool} {k : Nat} (hp : p.ResetOffline)
    (h : p.client.receive chunk = some (c', goesOn)) :
    (c'.serverConnectionStatus = .offline → c'.Reset) ↔ p.Clean (.message k chunk) := by
  obtain ⟨type, source, htype, rfl⟩ := Client.receive_eq h
  have hconnection := Client.afterMessage_connection p.client type source
  simp only [Clean, htype, Option.some.injEq, ne_eq]
  cases hserver : p.client.serverConnectionStatus with
  | offline =>
    -- no message opens a connection again
    rw [hserver, ite_self] at hconnection
    have hreset : (p.client.afterMessage type source).Reset ↔ _ := Client.afterMessage_reset_iff (hp hserver)
    constructor
    · intro h
      exact ⟨fun _ t ht heq => hreset.1 (h hconnection) (heq ▸ ht), fun hon => absurd hon (by decide)⟩
    · exact fun h _ => hreset.2 fun hmem => h.1 rfl type hmem rfl
  | online =>
    rw [hserver] at hconnection
    by_cases hnak : type = MsgType.loNak ∨ type = MsgType.rgNak
    · rw [if_pos hnak] at hconnection
      have hreset : (p.client.afterMessage type source).Reset ↔ _ := Client.afterMessage_refused hnak
      constructor
      · intro h
        exact ⟨fun hoff => absurd hoff (by decide), fun _ _ => hreset.1 (h hconnection)⟩
      · exact fun h _ => hreset.2 (h.2 rfl hnak)
    · rw [if_neg hnak] at hconnection
      constructor
      · exact fun _ => ⟨fun hoff => absurd hoff (by decide), fun _ hnak' => absurd hnak' hnak⟩
      · intro _ hoff
        rw [hconnection] at hoff
        cases hoff

/-- A line that is typed. -/
private theorem enter_reset_iff {locals : Locals} {line : Bytes} {r : Reaction} (hp : p.ResetOffline)
    (h : p.client.enter locals line = some (c', r)) :
    (c'.serverConnectionStatus = .offline → c'.Reset) ↔ (Client.LogsOut line → p.client.LeavesNothing) := by
  cases hserver : p.client.serverConnectionStatus with
  | offline =>
    rw [Client.enter_offline hserver h]
    refine ⟨fun _ _ hon => ?_, fun _ => hp⟩
    rw [hserver] at hon
    cases hon
  | online =>
    by_cases hline : Client.LogsOut line
    · obtain ⟨messages, hlogout, -⟩ := Client.enter_of_logsOut hserver hline h
      rw [Client.logout_reset_iff hserver hlogout]
      exact ⟨fun h _ => h, fun h => h hline⟩
    · have hsame := Client.enter_of_not_logsOut hline h
      -- the other lines keep the connection
      refine ⟨fun _ hline' => absurd hline' hline, fun _ hoff => ?_⟩
      rw [hsame, hserver] at hoff
      cases hoff

/-- A connection is not opened by a line that logs out. -/
private theorem not_logsOut_of_connect {locals : Locals} {line : Bytes} {request : UInt32} {parameters : List Bytes}
    (hserver : c.serverConnectionStatus = .online) (h : c.enter locals line = some (c', .connect request parameters)) :
    ¬ Client.LogsOut line := by
  intro hline
  obtain ⟨messages, -, hr⟩ := Client.enter_of_logsOut hserver hline h
  rcases hr with hr | hr <;> cases hr

private theorem typed_reset_iff {locals : Locals} {line : Bytes} {connected : Bool} (hp : p.ResetOffline)
    (h : p.next (.typed locals line connected) = some q) : q.ResetOffline ↔ p.Clean (.typed locals line connected) := by
  simp only [next, Option.ite_none_left_eq_some] at h
  obtain ⟨-, h⟩ := h
  split at h
  · rename_i client messages henter
    cases h
    exact enter_reset_iff hp henter
  · rename_i client messages henter
    cases h
    exact enter_reset_iff hp henter
  · rename_i client request parameters henter
    have hiff := enter_reset_iff hp henter
    unfold connect at h
    split at h
    · cases h
      exact hiff
    · split at h
      · cases h
        refine ⟨fun _ hline hon => absurd hline (not_logsOut_of_connect hon henter), fun _ hoff => ?_⟩
        cases hoff
      · cases h
        exact hiff
    · cases h
  · cases h

/-- A step leaves a flag on behind the connection exactly when it is not clean. -/
private theorem step_reset_iff (hp : p.ResetOffline) (h : p.next e = some q) : q.ResetOffline ↔ p.Clean e := by
  cases e with
  | typed locals line connected => exact typed_reset_iff hp h
  | full =>
    simp only [next, Option.ite_none_right_eq_some] at h
    obtain ⟨client, hclient, rfl⟩ := Option.map_eq_some_iff.1 h.2
    exact disconnect_reset_iff hp hclient
  | interrupt =>
    obtain ⟨client, hclient, rfl⟩ := Option.map_eq_some_iff.1 h
    exact disconnect_reset_iff hp hclient
  | head k =>
    simp only [next, Option.ite_none_right_eq_some, Option.some.injEq] at h
    obtain ⟨-, rfl⟩ := h
    exact ⟨fun _ => trivial, fun _ => hp⟩
  | message k chunk =>
    simp only [next, Option.ite_none_right_eq_some] at h
    obtain ⟨⟨client, goesOn⟩, hclient, rfl⟩ := Option.map_eq_some_iff.1 h.2
    exact message_reset_iff hp hclient
  | closed k =>
    simp only [next, Option.ite_none_right_eq_some] at h
    obtain ⟨client, hclient, rfl⟩ := Option.map_eq_some_iff.1 h.2
    exact disconnect_reset_iff hp hclient

theorem resetOffline_of_reachable (hr : Reachable (program.when Clean) p) : p.ResetOffline := by
  refine hr.invariant ?_ fun p e q _ hp h => (step_reset_iff hp h.2).2 h.1
  rintro p ⟨name, -, rfl⟩ -
  exact ⟨rfl, rfl, rfl⟩

/-- The steps that leave no flag on. -/
def nextReset (p : Program) (e : ProgramEvent) : Option Program := (p.next e).filter fun q => decide q.ResetOffline

private theorem reachable_nextReset {events : List ProgramEvent} (hr : Reachable (program.when Clean) p)
    (h : runFrom nextReset p events = some q) : Reachable (program.when Clean) q := by
  induction events generalizing p with
  | nil =>
    cases h
    exact hr
  | cons e events ih =>
    obtain ⟨p', hnext, h⟩ := Option.bind_eq_some_iff.1 h
    obtain ⟨hnext, hreset⟩ := Option.filter_eq_some_iff.1 hnext
    refine ih (.step hr ⟨?_, hnext⟩) h
    exact (step_reset_iff (resetOffline_of_reachable hr) hnext).1 (of_decide_eq_true hreset)

end Steps

end Program

/-- Whenever the client is logged out in such a run, its flags are reset, and `/login` and `/create` open a connection again;
every other step leaves a flag on. -/
theorem logout_resets {p : Program} (hr : Reachable (program.when Program.Clean) p) :
    (p.client.serverConnectionStatus = .offline → p.client.Reset ∧ ∀ request (t : TypedLine), t.index = loginParameterSize →
      p.client.askAccess request t = some (p.client, .connect request (t.tokens.drop 1))) ∧
    ∀ e q, program.step p e q → (q.ResetOffline ↔ p.Clean e) := by
  have hreset := Program.resetOffline_of_reachable hr
  refine ⟨fun hoff => ⟨hreset hoff, fun request t hindex => ?_⟩, fun e q h => Program.step_reset_iff hreset h⟩
  simp only [Client.askAccess, hindex, (hreset hoff).verified, ne_eq, not_true_eq_false, reduceCtorEq, if_false]

/-- `ann` registers, is told so, and logs out. -/
theorem logout_resets_ann : ∃ p : Program, p.client.name.bytes = ascii "ann" ∧ p.threads = [some .head] ∧
    p.client.Reset := by
  let nobody : CStr maxName := ⟨[], by decide, by decide⟩
  let typed (line : Bytes) : ProgramEvent := .typed ⟨.zero, CArray.zero _⟩ (line ++ [10]) true
  let events : List ProgramEvent :=
    [typed (ascii "/create ann x 127.0.0.1 5000"), .head 0, .message 0 (ascii "14:0:ann:"), typed (ascii "/logout")]
  have hfields : (runFrom Program.nextReset (.start nobody) events).map (fun p =>
      (p.client.name.bytes, p.threads, p.client.serverConnectionStatus)) = some (ascii "ann", [some .head], .offline) := by
    decide
  obtain ⟨p, hp, hfields⟩ := Option.map_eq_some_iff.1 hfields
  simp only [Prod.mk.injEq] at hfields
  have hr : Reachable (program.when Program.Clean) p := Program.reachable_nextReset (.init ⟨nobody, rfl, rfl⟩) hp
  exact ⟨p, hfields.1, hfields.2.1, ((logout_resets hr).1 hfields.2.2).1⟩

/-- `ann` registers, and logs out before the server's answer arrives: she is then taken for logged in, without a connection,
and can neither log in again nor log out. -/
theorem logout_resets_fails : ∃ s p, afterEvents [.accept 3 ⟨[], by decide, by decide⟩, .recv 3 (ascii "13:1:ann:x")] = some s ∧
    s.world.mem.inbox 3 = [ascii "14:0:ann:"] ∧
    runFrom Program.next (.start ⟨[], by decide, by decide⟩) [
      .typed ⟨.zero, CArray.zero _⟩ (ascii "/create ann x 127.0.0.1 5000" ++ [10]) true, .head 0,
      .typed ⟨.zero, CArray.zero _⟩ (ascii "/logout" ++ [10]) true, .message 0 (ascii "14:0:ann:"), .head 0] = some p ∧
    p.client.serverConnectionStatus = .offline ∧ p.threads = [some .ended] ∧ ¬ p.client.Reset ∧
    ∀ request t, p.client.askAccess request t = p.client.nothing := by
  obtain ⟨s, hs⟩ := Option.isSome_iff_exists.1 (show (afterEvents [.accept 3 ⟨[], by decide, by decide⟩,
    .recv 3 (ascii "13:1:ann:x")]).isSome = true by decide)
  let typed (line : Bytes) : ProgramEvent := .typed ⟨.zero, CArray.zero _⟩ (line ++ [10]) true
  have hfields : (runFrom Program.next (.start ⟨[], by decide, by decide⟩) [typed (ascii "/create ann x 127.0.0.1 5000"),
      .head 0, typed (ascii "/logout"), .message 0 (ascii "14:0:ann:"), .head 0]).map (fun p =>
      (p.client.serverConnectionStatus, p.threads, p.client.verifiedAccess)) = some (.offline, [some .ended], .online) := by
    decide
  obtain ⟨p, hp, hfields⟩ := Option.map_eq_some_iff.1 hfields
  simp only [Prod.mk.injEq] at hfields
  obtain ⟨hoff, hthreads, hverified⟩ := hfields
  refine ⟨s, p, hs, of_afterEvents (f := fun s => s.world.mem.inbox 3) hs (by decide), hp, hoff, hthreads, fun hreset => ?_,
    fun request t => ?_⟩
  · rw [hreset.verified] at hverified
    cases hverified
  · simp only [Client.askAccess, hverified, if_true, ite_self]

end Conferencing
