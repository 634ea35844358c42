import NetLabs.Conferencing.Link

/-!
# The client and the server agree on the session

Whenever nothing is under way between a client that is logged in and the server, the client's `session_status` and
`role` say what its record says, in every run that is `Careful`.  Between two such moments the flags may differ: what
agrees with the record is what the flags become once everything under way has been received (`Settled`), except from
the moment `/leavesession` is typed until the server has served it (`Leaving`).

A second `JOIN` that is refused while the first one has been granted switches `session_status` off, and so breaks the
agreement.
-/

namespace Conferencing

open CText LockProg Transition

/-! ### The condition -/

/-- The requests that may be granted with `JN_ACK` or `NS_ACK`. -/
def asksForSession (bytes : Bytes) : Prop := typeOf bytes = some MsgType.join ∨ typeOf bytes = some MsgType.newSess

def grantsSession (bytes : Bytes) : Prop := typeOf bytes = some MsgType.jnAck ∨ typeOf bytes = some MsgType.nsAck

/-- The steps that keep the agreement.  `/leavesession` is not typed while a session has been asked for or granted and
the answer has not been received; a `JOIN` is not served while its user is in a session; a `LEAVE_SESS` of a user in a
session is not served while a mutex is held; and no connection is accepted whose uninitialised `source` holds the
client's name. -/
def Careful (l : Link) : LinkEvent → Prop
  | .typed _ line => l.client.sessionStatus = .online → commandOf line = some .leaveSession →
      (∀ bytes ∈ l.toServer, ¬ asksForSession bytes) ∧ ∀ bytes ∈ l.toClient, ¬ grantsSession bytes
  | .serve => ∀ bytes, l.toServer.head? = some bytes → ∀ u,
      ownRecord l.server.world.mem.users l.client.name.bytes = some u → u.inSession = .online →
      typeOf bytes ≠ some MsgType.join ∧ (typeOf bytes = some MsgType.leaveSess → l.server.world.Free)
  | .deliver => True
  | .others e => ∀ socketFd garbage, e = .accept socketFd garbage → garbage ≠ l.client.name

/-! ### The invariant -/

/-- What the client will know once it has received everything under way agrees with its record, and no `LEAVE_SESS` is
under way. -/
structure Settled (l : Link) (u : User) : Prop where
  noLeave : ∀ bytes ∈ l.toServer, typeOf bytes ≠ some MsgType.leaveSess
  agrees : Agrees (settle l.client.flags l.toClient) u

/-- The client has left, the server does not know it yet, and nothing under way puts either of them into a session
before. -/
structure Leaving (l : Link) : Prop where
  toServer : ∃ before leave rest, l.toServer = before ++ leave :: rest ∧ typeOf leave = some MsgType.leaveSess ∧
    (∀ bytes ∈ before, ¬ asksForSession bytes ∧ typeOf bytes ≠ some MsgType.leaveSess) ∧
    ∀ bytes ∈ rest, typeOf bytes ≠ some MsgType.leaveSess
  session : l.client.sessionStatus = .offline
  toClient : ∀ bytes ∈ l.toClient, ¬ grantsSession bytes

/-- What holds while the client is logged in as `name`. -/
structure Joined (fd : Nat) (name : CStr maxName) (l : Link) : Prop where
  name_eq : l.client.name = name
  colonFree : colon ∉ name.bytes
  verified : l.client.verifiedAccess = .online
  online : l.client.serverConnectionStatus = .online
  socket : fd ≠ offlineFd
  reachable : Reachable server l.server
  conn : ∀ conn, l.server.conns fd = .running conn → conn = ⟨name, .online⟩
  alone : ∀ fd' conn, fd' ≠ fd → l.server.conns fd' = .running conn → conn.source ≠ name
  requests : ∀ bytes ∈ l.toServer, ∃ type, Request name type bytes
  answers : ∀ bytes ∈ l.toClient, ∃ type, typeOf bytes = some type ∧ type ≠ MsgType.loAck ∧ type ≠ MsgType.rgAck
  record : ∃ i u, Mine l.server.world.mem.users name fd i u ∧ (Settled l u ∨ Leaving l)

/-! ### Flags -/

/-- Without a grant a client that is out of a session stays out. -/
private theorem settle_offline {f : Status × Role} {messages : List Bytes} (hf : f.1 = .offline)
    (h : ∀ bytes ∈ messages, ¬ grantsSession bytes) : (settle f messages).1 = .offline := by
  induction messages generalizing f with
  | nil => exact hf
  | cons bytes messages ih =>
    have hstep : settle f (bytes :: messages) = settle (settle f [bytes]) messages := rfl
    rw [hstep]
    refine ih ?_ fun b hb => h b (List.mem_cons_of_mem _ hb)
    cases ht : typeOf bytes with
    | none => simpa [settle, ht] using hf
    | some type =>
      have hno : type ≠ MsgType.jnAck ∧ type ≠ MsgType.nsAck := by
        have := h bytes (by simp)
        simpa [grantsSession, ht] using this
      rw [settle_singleton ht]
      unfold flagsAfter
      rw [if_neg hno.1]
      split
      · rfl
      rw [if_neg hno.2]
      split
      · exact hf
      split
      · exact hf
      split
      · rfl
      · exact hf

private theorem agrees_offline {f : Status × Role} {u : User} (hf : f.1 = .offline) (hu : u.inSession = .offline) :
    Agrees f u := by
  refine ⟨⟨fun h => ?_, fun h => ?_⟩, fun h => ?_⟩
  · rw [hf] at h
    cases h
  · rw [hu] at h
    cases h
  · rw [hu] at h
    cases h

/-! ### The steps -/

section Steps

variable {fd : Nat} {name : CStr maxName} {l l' : Link}

private theorem joined_of_begins (h : l.Begins fd) : Joined fd l.client.name l := by
  obtain ⟨i, u, hmine, hin⟩ := h.record
  refine ⟨rfl, (record_of_reachable h.reachable h.conn rfl).2, h.verified, h.online, h.socket, h.reachable,
    fun conn hconn => ?_, h.alone, by simp [h.toServer], by simp [h.toClient], i, u, hmine, Or.inl ⟨?_, ?_⟩⟩
  · rw [h.conn, Slot.running.injEq] at hconn
    exact hconn.symm
  · simp [h.toServer]
  · rw [h.toClient]
    exact agrees_offline h.session hin

/-- One more request is under way. -/
private theorem joined_asked {type : UInt32} {bytes : Bytes} (h : Joined fd name l) (hreq : Request name type bytes)
    (hleave : type ≠ MsgType.leaveSess) : Joined fd name { l with toServer := l.toServer ++ [bytes] } := by
  have htype : typeOf bytes ≠ some MsgType.leaveSess := by
    rw [hreq.typeOf_eq h.colonFree]
    exact fun heq => hleave (Option.some.inj heq)
  have happend : ∀ {rest : List Bytes}, (∀ b ∈ rest, typeOf b ≠ some MsgType.leaveSess) →
      ∀ b ∈ rest ++ [bytes], typeOf b ≠ some MsgType.leaveSess := by
    intro rest hrest b hb
    rcases List.mem_append.1 hb with hb | hb
    · exact hrest b hb
    · rw [List.mem_singleton.1 hb]
      exact htype
  obtain ⟨i, u, hmine, hphase⟩ := h.record
  refine { h with
    requests := fun b hb => ?_
    record := ⟨i, u, hmine, ?_⟩ }
  · rcases List.mem_append.1 hb with hb | hb
    · exact h.requests b hb
    · rw [List.mem_singleton.1 hb]
      exact ⟨type, hreq⟩
  · rcases hphase with hsettled | hleaving
    · exact Or.inl ⟨happend hsettled.noLeave, hsettled.agrees⟩
    · obtain ⟨before, leave, rest, htoServer, hbefore⟩ := hleaving.toServer
      refine Or.inr ⟨⟨before, leave, rest ++ [bytes], ?_, hbefore.1, hbefore.2.1, happend hbefore.2.2⟩,
        hleaving.session, hleaving.toClient⟩
      rw [htoServer, List.append_assoc, List.cons_append]

/-- `/leavesession` in a session: the client is out at once. -/
private theorem joined_leave (h : Joined fd name l) (hsession : l.client.sessionStatus = .online)
    (hasks : ∀ bytes ∈ l.toServer, ¬ asksForSession bytes) (hgrants : ∀ bytes ∈ l.toClient, ¬ grantsSession bytes) :
    Joined fd name { l with
      client := { l.client with sessionStatus := .offline, role := .user }
      toServer := l.toServer ++ [wireOf MsgType.leaveSess l.client.name none] } := by
  have htype : typeOf (wireOf MsgType.leaveSess l.client.name none) = some MsgType.leaveSess := by
    rw [h.name_eq]
    exact typeOf_wireOf _ _ h.colonFree
  obtain ⟨i, u, hmine, hphase⟩ := h.record
  refine { h with
    requests := fun b hb => ?_
    record := ⟨i, u, hmine, Or.inr ⟨⟨l.toServer, _, [], rfl, htype, fun b hb => ⟨hasks b hb, ?_⟩, by simp⟩, rfl,
      hgrants⟩⟩ }
  · rcases List.mem_append.1 hb with hb | hb
    · exact h.requests b hb
    · rw [List.mem_singleton.1 hb, h.name_eq]
      exact ⟨_, .ask (by decide) (fun h => absurd h (by decide)) fun h => absurd h (by decide)⟩
  · -- a client that has left already is not in a session
    rcases hphase with hsettled | hleaving
    · exact hsettled.noLeave b hb
    · exact absurd (hsession.symm.trans hleaving.session) (by decide)

private theorem joined_typed {locals : Locals} {line : Bytes} (h : Joined fd name l)
    (hcareful : Careful l (.typed locals line))
    (hstep : l.next fd (.typed locals line) = some l') : l'.client.Out ∨ Joined fd name l' := by
  simp only [Link.next] at hstep
  cases henter : l.client.enter locals line with
  | none => simp [henter] at hstep
  | some p =>
    obtain ⟨c', r⟩ := p
    rw [henter] at hstep
    cases Client.enter_cases h.verified h.online henter with
    | out hout =>
      left
      cases r with
      | send messages => cases hstep; exact hout
      | quit messages => cases hstep; exact hout
      | connect request parameters => cases hstep
    | asked hasks =>
      right
      obtain ⟨rfl, rfl | ⟨type, bytes, hreq, hleave, rfl⟩⟩ := hasks
      · cases hstep
        simpa using h
      · cases hstep
        rw [h.name_eq] at hreq
        exact joined_asked h hreq hleave
    | leave hcommand hsession =>
      right
      cases hstep
      obtain ⟨hasks, hgrants⟩ := hcareful hsession hcommand
      exact joined_leave h hsession hasks hgrants

private theorem joined_serve (h : Joined fd name l) (hcareful : Careful l .serve) (hstep : l.next fd .serve = some l') :
    Joined fd name l' := by
  simp only [Link.next] at hstep
  cases htoServer : l.toServer with
  | nil => simp [htoServer] at hstep
  | cons bytes rest =>
    rw [htoServer] at hstep
    obtain ⟨t, hnext, rfl⟩ := Option.map_eq_some_iff.1 hstep
    obtain ⟨i, u, hmine, hphase⟩ := h.record
    obtain ⟨type, hreq⟩ := h.requests bytes (by simp [htoServer])
    have htype := hreq.typeOf_eq h.colonFree
    have hu := consistent_of_reachable h.reachable u hmine.record.mem
    have hcare : u.inSession = .online →
        type ≠ MsgType.join ∧ (type = MsgType.leaveSess → l.server.world.Free) := by
      intro hin
      have := hcareful bytes (by simp [htoServer]) u (by rw [h.name_eq]; exact ownRecord_eq hmine.record) hin
      simpa [htype] using this
    have hturn := ServerState.turn hnext
    obtain ⟨hconn, u', hmine', htold⟩ :=
      hturn.own h.conn hreq hmine hu h.colonFree fun hleave hin => (hcare hin).2 hleave
    refine { h with
      reachable := .step h.reachable hnext
      conn := hconn
      alone := fun fd' conn hne hrun => ?_
      requests := fun b hb => h.requests b (by simp [htoServer, hb])
      answers := fun b hb => ?_
      record := ⟨i, u', hmine', ?_⟩ }
    · rw [hturn.conns_ne (Ne.symm hne)] at hrun
      exact h.alone fd' conn hne hrun
    · rcases List.mem_append.1 hb with hb | hb
      · exact h.answers b hb
      · obtain ⟨t, ht, hlo, hrg, -⟩ := htold.types b hb
        exact ⟨t, ht, hlo, hrg⟩
    · rcases hphase with hsettled | hleaving
      · left
        refine ⟨fun b hb => hsettled.noLeave b (by simp [htoServer, hb]), ?_⟩
        have hleave : type ≠ MsgType.leaveSess := by
          rintro rfl
          exact hsettled.noLeave bytes (by simp [htoServer]) htype
        rw [settle_append]
        refine htold.agrees hleave (fun hjoin => ?_) _ hsettled.agrees
        cases hin : u.inSession with
        | offline => rfl
        | online => exact absurd hjoin (hcare hin).1
      · obtain ⟨before, leave, after, hsplit, hleave, hbefore, hafter⟩ := hleaving.toServer
        rw [htoServer] at hsplit
        cases before with
        | nil =>
          -- the request to leave itself
          left
          obtain ⟨rfl, rfl⟩ := List.cons.inj hsplit
          obtain rfl : type = MsgType.leaveSess := Option.some.inj (htype.symm.trans hleave)
          obtain ⟨hin, hnone⟩ := htold.leave rfl
          refine ⟨hafter, ?_⟩
          rw [hnone, List.append_nil]
          exact agrees_offline (settle_offline hleaving.session hleaving.toClient) hin
        | cons b before =>
          right
          obtain ⟨rfl, rfl⟩ := List.cons.inj hsplit
          refine ⟨⟨before, leave, after, rfl, hleave, fun b hb => hbefore b (by simp [hb]), hafter⟩, hleaving.session,
            fun b hb => ?_⟩
          rcases List.mem_append.1 hb with hb | hb
          · exact hleaving.toClient b hb
          · obtain ⟨t, ht, -, -, hgrant⟩ := htold.types b hb
            have hasks := (hbefore bytes (by simp)).1
            simp only [asksForSession, htype, Option.some.injEq] at hasks
            simp only [grantsSession, ht, Option.some.injEq]
            exact fun h => hasks (hgrant h)

private theorem joined_deliver (h : Joined fd name l) (hstep : l.next fd .deliver = some l') :
    l'.client.Out ∨ Joined fd name l' := by
  simp only [Link.next] at hstep
  cases htoClient : l.toClient with
  | nil => simp [htoClient] at hstep
  | cons bytes rest =>
    rw [htoClient] at hstep
    simp only [h.online, ↓reduceIte] at hstep
    obtain ⟨⟨c', goesOn⟩, hreceive, rfl⟩ := Option.map_eq_some_iff.1 hstep
    obtain ⟨type, htype, hack⟩ := h.answers bytes (by simp [htoClient])
    obtain ⟨hname, hout | ⟨hverified, hserver⟩⟩ := Client.receive_login hreceive htype hack
    · exact Or.inl hout
    · right
      obtain ⟨i, u, hmine, hphase⟩ := h.record
      have hflags := Client.flags_receive hreceive
      refine { h with
        name_eq := hname.trans h.name_eq
        verified := hverified.trans h.verified
        online := hserver.trans h.online
        answers := fun b hb => h.answers b (by simp [htoClient, hb])
        record := ⟨i, u, hmine, ?_⟩ }
      rcases hphase with hsettled | hleaving
      · refine Or.inl ⟨hsettled.noLeave, ?_⟩
        have := hsettled.agrees
        rw [htoClient] at this
        show Agrees (settle c'.flags rest) u
        rw [hflags]
        exact this
      · refine Or.inr ⟨hleaving.toServer, ?_, fun b hb => hleaving.toClient b (by simp [htoClient, hb])⟩
        show c'.flags.1 = .offline
        rw [hflags]
        exact settle_offline hleaving.session fun b hb =>
          hleaving.toClient b (by simp [htoClient, List.mem_singleton.1 hb])

private theorem joined_others {e : Event} (h : Joined fd name l) (hcareful : Careful l (.others e))
    (hstep : l.next fd (.others e) = some l') : Joined fd name l' := by
  simp only [Link.next, Option.ite_none_right_eq_some] at hstep
  obtain ⟨hsocket, hstep⟩ := hstep
  obtain ⟨t, hnext, rfl⟩ := Option.map_eq_some_iff.1 hstep
  obtain ⟨i, u, hmine, hphase⟩ := h.record
  have hturn := ServerState.turn hnext
  obtain ⟨u', hmine', hnoticed⟩ :=
    hturn.noticed hmine (fun conn hconn => h.alone _ conn hsocket hconn) hsocket h.socket
  refine { h with
    reachable := .step h.reachable hnext
    conn := fun conn hconn => h.conn conn (hturn.conns_ne hsocket ▸ hconn)
    alone := fun fd' conn hne hconn => hturn.source_ne hmine (fun socketFd garbage he => ?_)
      (fun conn hold => h.alone fd' conn hne hold) hconn
    answers := fun b hb => ?_
    record := ⟨i, u', hmine', ?_⟩ }
  · rw [← h.name_eq]
    exact hcareful socketFd garbage he
  · rcases List.mem_append.1 hb with hb | hb
    · exact h.answers b hb
    · rcases hnoticed.types b hb with ht | ht | ht <;> exact ⟨_, ht, by decide, by decide⟩
  · rcases hphase with hsettled | hleaving
    · refine Or.inl ⟨hsettled.noLeave, ?_⟩
      rw [settle_append]
      exact hnoticed.agrees hsettled.agrees
    · refine Or.inr ⟨hleaving.toServer, hleaving.session, fun b hb => ?_⟩
      rcases List.mem_append.1 hb with hb | hb
      · exact hleaving.toClient b hb
      · rcases hnoticed.types b hb with ht | ht | ht <;> simp only [grantsSession, ht] <;> decide

/-- A client that has logged out stays out. -/
private theorem out_step {e : LinkEvent} (h : l.client.Out) (hstep : l.next fd e = some l') : l'.client.Out := by
  cases e with
  | typed locals line =>
    simp only [Link.next] at hstep
    split at hstep
    · rename_i henter
      cases hstep
      rw [Client.enter_offline h.2 henter]
      exact h
    · rename_i henter
      cases hstep
      rw [Client.enter_offline h.2 henter]
      exact h
    · cases hstep
  | serve =>
    simp only [Link.next] at hstep
    split at hstep
    · cases hstep
    · obtain ⟨t, -, rfl⟩ := Option.map_eq_some_iff.1 hstep
      exact h
  | deliver =>
    simp only [Link.next] at hstep
    split at hstep
    · cases hstep
    · simp [h.2] at hstep
  | others e =>
    simp only [Link.next, Option.ite_none_right_eq_some] at hstep
    obtain ⟨t, -, rfl⟩ := Option.map_eq_some_iff.1 hstep.2
    exact h

end Steps

/-- The client is logged in under some name, with all that follows, or has logged out. -/
theorem joined_of_reachable {fd : Nat} {l : Link} (hr : Reachable ((link fd).when Careful) l) :
    l.client.Out ∨ ∃ name, Joined fd name l := by
  refine hr.invariant (P := fun l => l.client.Out ∨ ∃ name, Joined fd name l) (fun l h => Or.inr ⟨_, joined_of_begins h⟩)
    fun l e l' _ hl hst => ?_
  obtain ⟨hcareful, hstep⟩ := hst
  rcases hl with hout | ⟨name, hjoined⟩
  · exact Or.inl (out_step hout hstep)
  · cases e with
    | typed locals line => exact (joined_typed hjoined hcareful hstep).imp_right fun h => ⟨name, h⟩
    | serve => exact Or.inr ⟨name, joined_serve hjoined hcareful hstep⟩
    | deliver => exact (joined_deliver hjoined hstep).imp_right fun h => ⟨name, h⟩
    | others e => exact Or.inr ⟨name, joined_others hjoined hcareful hstep⟩

/-- Session agreement: in every run of careful steps, whenever the client is logged in and nothing is under way,
`session_status` and `role` say what the record of the user says. -/
theorem session_agreement {fd : Nat} {l : Link} (hr : Reachable ((link fd).when Careful) l)
    (hverified : l.client.verifiedAccess = .online) (htoServer : l.toServer = []) (htoClient : l.toClient = []) :
    ∃ i u, Record l.server.world.mem.users l.client.name.bytes i u ∧
      (l.client.sessionStatus = .online ↔ u.inSession = .online) ∧
      (u.inSession = .online → l.client.role = u.role) := by
  rcases joined_of_reachable hr with hout | ⟨name, hjoined⟩
  · rw [hout.1] at hverified
    cases hverified
  · obtain ⟨i, u, hmine, hsettled | hleaving⟩ := hjoined.record
    · have hagrees := hsettled.agrees
      rw [htoClient] at hagrees
      exact ⟨i, u, hjoined.name_eq ▸ hmine.record, hagrees⟩
    · obtain ⟨before, leave, rest, hsplit, -⟩ := hleaving.toServer
      rw [htoServer] at hsplit
      cases before <;> cases hsplit

/-! ### Runs after a registration -/

/-- A client that is logged in and in no session. -/
def newClient (name : CStr maxName) : Client := ⟨name, .online, .online, .offline, .user⟩

/-- The link of a client that has logged in during `events`. -/
def Link.after (name : CStr maxName) (s : ServerState) : Link := ⟨newClient name, [], [], s⟩

private theorem begins_after {events : List Event} {s : ServerState} {fd : Nat} {name : CStr maxName}
    (hs : afterEvents events = some s) (hfd : fd ≠ offlineFd) (hconn : s.conns fd = .running ⟨name, .online⟩)
    (hown : (ownRecord s.world.mem.users name.bytes).map (fun u => (u.socketFd, u.status, u.inSession)) =
      some (fd, .online, .offline))
    (honly : (s.world.mem.users.map User.socketFd).Nodup)
    (halone : ∀ e ∈ events, e.socket = fd ∨ s.conns e.socket ≠ .running ⟨name, .online⟩ ∧
      s.conns e.socket ≠ .running ⟨name, .offline⟩) : (Link.after name s).Begins fd := by
  obtain ⟨u, hu, hfields⟩ := Option.map_eq_some_iff.1 hown
  obtain ⟨i, hfound, hget⟩ := Option.bind_eq_some_iff.1 hu
  simp only [Prod.mk.injEq] at hfields
  have hmine : Mine s.world.mem.users name fd i u := by
    refine ⟨⟨hfound, hget⟩, hfields.1, hfields.2.1, fun hin => ?_, fun j v hj hv => ?_⟩
    · rw [hfields.2.2] at hin
      cases hin
    · have hi : (s.world.mem.users.map User.socketFd)[i]? = some fd := by
        rw [List.getElem?_map, hget, Option.map_some, hfields.1]
      have hj' : (s.world.mem.users.map User.socketFd)[j]? = some fd := by
        rw [List.getElem?_map, hj, Option.map_some, hv]
      obtain ⟨hlt, -⟩ := List.getElem?_eq_some_iff.1 hj'
      exact (List.getElem?_inj hlt honly).1 (hj'.trans hi.symm)
  refine ⟨reachable_afterEvents hs, rfl, rfl, rfl, rfl, rfl, hfd, hconn, ⟨i, u, hmine, hfields.2.2⟩,
    fun fd' conn hne hrun hsource => ?_⟩
  by_cases hmem : ∃ e ∈ events, e.socket = fd'
  · obtain ⟨e, he, rfl⟩ := hmem
    rcases halone e he with hfd | ⟨hon, hoff⟩
    · exact hne hfd
    · obtain ⟨source, status⟩ := conn
      obtain rfl : source = name := hsource
      cases status with
      | online => exact hon hrun
      | offline => exact hoff hrun
  · have hclosed := conns_afterEvents hs fun e he heq => hmem ⟨e, he, heq⟩
    rw [show (Link.after name s).server.conns fd' = s.conns fd' from rfl, hclosed] at hrun
    cases hrun

/-- `bob` registers and creates a session. -/
theorem session_agreement_created :
    ∃ s l, afterEvents [.accept 3 ⟨[], by decide, by decide⟩, .recv 3 (ascii "13:1:bob:x")] = some s ∧
      runFrom (Link.next 3) (.after ⟨ascii "bob", by decide, by decide⟩ s)
        [.typed ⟨.zero, CArray.zero _⟩ (ascii "/createsession s" ++ [10]), .serve, .deliver] = some l ∧
      ∃ i u, Record l.server.world.mem.users l.client.name.bytes i u ∧
        (l.client.sessionStatus = .online ↔ u.inSession = .online) ∧
        (u.inSession = .online → l.client.role = u.role) := by
  let bob : CStr maxName := ⟨ascii "bob", by decide, by decide⟩
  let line : LinkEvent := .typed ⟨.zero, CArray.zero _⟩ (ascii "/createsession s" ++ [10])
  obtain ⟨s, hs⟩ := Option.isSome_iff_exists.1 (show (afterEvents [.accept 3 ⟨[], by decide, by decide⟩,
    .recv 3 (ascii "13:1:bob:x")]).isSome = true by decide)
  obtain ⟨l, hl⟩ : ∃ l, runFrom (Link.next 3) (.after bob s) [line, .serve, .deliver] = some l :=
    Option.isSome_iff_exists.1
      (of_afterEvents (f := fun s => (runFrom (Link.next 3) (.after bob s) [line, .serve, .deliver]).isSome) hs (by decide))
  refine ⟨s, l, hs, hl, ?_⟩
  obtain ⟨l₁, h₁, hl'⟩ := Option.bind_eq_some_iff.1 hl
  obtain ⟨l₂, h₂, hl'⟩ := Option.bind_eq_some_iff.1 hl'
  obtain ⟨l₃, h₃, hl'⟩ := Option.bind_eq_some_iff.1 hl'
  obtain rfl : l₃ = l := Option.some.inj hl'
  have hbegins : (Link.after bob s).Begins 3 := begins_after hs (by decide)
    (of_afterEvents (f := fun s => s.conns 3) hs (by decide))
    (of_afterEvents (f := fun s => (ownRecord s.world.mem.users bob.bytes).map fun u =>
      (u.socketFd, u.status, u.inSession)) hs (by decide))
    (of_decide_eq_true (of_afterEvents (f := fun s => decide (s.world.mem.users.map User.socketFd).Nodup) hs (by decide)))
    (by simp [Event.socket])
  have hout : (ownRecord l₁.server.world.mem.users l₁.client.name.bytes).map User.inSession = some .offline := by
    have := of_afterEvents (f := fun s => (Link.next 3 (.after bob s) line).map fun l =>
      (ownRecord l.server.world.mem.users l.client.name.bytes).map User.inSession) hs
      (a := some (some .offline)) (by decide)
    rw [h₁] at this
    exact Option.some.inj this
  have hstart : Reachable ((link 3).when Careful) (.after bob s) := .init hbegins
  have hcareful : Careful l₁ .serve := by
    intro _ _ u hu hin
    rw [hu, Option.map_some, hin] at hout
    cases hout
  have hcareful₀ : Careful (.after bob s) line := by
    intro hon
    cases hon
  have hr₁ : Reachable ((link 3).when Careful) l₁ := .step hstart ⟨hcareful₀, h₁⟩
  have hr₂ : Reachable ((link 3).when Careful) l₂ := .step hr₁ ⟨hcareful, h₂⟩
  have hr : Reachable ((link 3).when Careful) l₃ := .step (e := .deliver) hr₂ ⟨trivial, h₃⟩
  have hfinal : l₃.client.verifiedAccess = .online ∧ l₃.toServer = [] ∧ l₃.toClient = [] := by
    have := of_afterEvents (f := fun s => (runFrom (Link.next 3) (.after bob s) [line, .serve, .deliver]).map fun l =>
      (l.client.verifiedAccess, l.toServer, l.toClient)) hs (a := some (.online, [], [])) (by decide)
    rw [hl, Option.map_some, Option.some.injEq, Prod.mk.injEq, Prod.mk.injEq] at this
    exact this
  exact session_agreement hr hfinal.1 hfinal.2.1 hfinal.2.2

/-- `bob` types `/joinsession s` twice before the first answer arrives: the second `JOIN` is refused because he is in
the session, and his client takes that for not being in one. -/
theorem session_agreement_fails : ¬ ∀ fd l, Reachable (link fd) l → l.client.verifiedAccess = .online →
    l.toServer = [] → l.toClient = [] → ∃ i u, Record l.server.world.mem.users l.client.name.bytes i u ∧
      (l.client.sessionStatus = .online ↔ u.inSession = .online) ∧
      (u.inSession = .online → l.client.role = u.role) := by
  intro h
  let bob : CStr maxName := ⟨ascii "bob", by decide, by decide⟩
  let nobody : CStr maxName := ⟨[], by decide, by decide⟩
  let events : List Event := [.accept 4 nobody, .recv 4 (ascii "13:1:ann:x"), .recv 4 (ascii "8:1:ann:s"),
    .accept 3 nobody, .recv 3 (ascii "13:1:bob:x")]
  let line : LinkEvent := .typed ⟨.zero, CArray.zero _⟩ (ascii "/joinsession s" ++ [10])
  let steps : List LinkEvent := [line, line, .serve, .serve, .deliver, .deliver]
  obtain ⟨s, hs⟩ : ∃ s, afterEvents events = some s := Option.isSome_iff_exists.1 (by decide)
  let quiet : ServerState → Option (Status × List Bytes × List Bytes) := fun s =>
    (runFrom (Link.next 3) (.after bob s) steps).map fun l => (l.client.verifiedAccess, l.toServer, l.toClient)
  let sessions : ServerState → Option (Status × Option Status) := fun s =>
    (runFrom (Link.next 3) (.after bob s) steps).map fun l => (l.client.sessionStatus,
      (ownRecord l.server.world.mem.users l.client.name.bytes).map User.inSession)
  have hquiet : quiet s = some (.online, [], []) := of_afterEvents (f := quiet) hs (by decide)
  have hsessions : sessions s = some (.offline, some .online) := of_afterEvents (f := sessions) hs (by decide)
  obtain ⟨l, hl, hfields⟩ := Option.map_eq_some_iff.1 hquiet
  simp only [Prod.mk.injEq] at hfields
  obtain ⟨hverified, htoServer, htoClient⟩ := hfields
  simp only [sessions, hl, Option.map_some, Option.some.injEq, Prod.mk.injEq] at hsessions
  obtain ⟨hsession, hown⟩ := hsessions
  have hbegins : (Link.after bob s).Begins 3 := begins_after hs (by decide)
    (of_afterEvents (f := fun s => s.conns 3) hs (by decide))
    (of_afterEvents (f := fun s => (ownRecord s.world.mem.users bob.bytes).map fun u =>
      (u.socketFd, u.status, u.inSession)) hs (by decide))
    (of_decide_eq_true (of_afterEvents (f := fun s => decide (s.world.mem.users.map User.socketFd).Nodup) hs (by decide)))
    (of_decide_eq_true (of_afterEvents (f := fun s => decide (∀ e ∈ events, e.socket = 3 ∨
      s.conns e.socket ≠ .running ⟨bob, .online⟩ ∧ s.conns e.socket ≠ .running ⟨bob, .offline⟩)) hs (by decide)))
  have hstart : Reachable (link 3) (.after bob s) := .init hbegins
  obtain ⟨i, u, hrec, hiff, -⟩ := h 3 l (hstart.runFrom (fun _ _ _ h => h) hl) hverified htoServer htoClient
  rw [ownRecord_eq hrec, Option.map_some, Option.some.injEq] at hown
  rw [hiff.2 hown] at hsession
  cases hsession

end Conferencing
