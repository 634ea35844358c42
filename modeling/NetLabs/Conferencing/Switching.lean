import NetLabs.Conferencing.Membership

/-!
# Changing the session

`JOIN` is refused to a user who is in a session, `NEW_SESS` is not: `server_side_session_create` looks at the name of the
new session only, and overwrites the session text of the requester.  That is the only way from one session to another
(`one_session_at_a_time`).
-/

namespace Conferencing

open CText LockProg Transition

/-- What is expected of every event: a user who is in a session before and after it is in the same session, and a
`NEW_SESS` of a user who is in a session changes no record. -/
structure KeepsSession (s : ServerState) (e : Event) (t : ServerState) : Prop where
  same : ∀ (i : Nat) (u u' : User), s.world.mem.users[i]? = some u → t.world.mem.users[i]? = some u' → u.inSession = .online →
    u'.inSession = .online → u'.sessionId = u.sessionId
  refused : ∀ socketFd chunk conn received claimed i u, e = .recv socketFd chunk → s.conns socketFd = .running conn →
    decode (recvBuffer chunk) = some (received, claimed) → received.type = MsgType.newSess →
    Record s.world.mem.users conn.source.bytes i u → u.inSession = .online → t.world.mem.users = s.world.mem.users

/-- The event is a `NEW_SESS` of a user who is in a session; nobody is in the session it names, whose name fits a record,
and no mutex is held. -/
def Switches (s : ServerState) (e : Event) : Prop :=
  ∃ socketFd chunk conn received claimed i u sessionId id, e = .recv socketFd chunk ∧
    s.conns socketFd = .running conn ∧ decode (recvBuffer chunk) = some (received, claimed) ∧
    received.type = MsgType.newSess ∧ Record s.world.mem.users conn.source.bytes i u ∧ u.inSession = .online ∧
    received.data.text? = some sessionId ∧ sessionId.copy? maxSessionLength = some id ∧
    countInSession s.world.mem.users id.bytes = 0 ∧ s.world.held .userList = false ∧ s.world.held .rw = false

section Create

variable {s t : ServerState} {e : Event} {socketFd : Nat} {chunk : Bytes} {conn : Conn} {received : Message}
  {claimed : CStr maxName} {i : Nat} {u : User} {r : Option Conn} {w : World Mutex Memory}

/-- A `NEW_SESS` that has been served: no mutex was held, and the session was new or the request refused. -/
private theorem serve_newSess (hdec : decode (recvBuffer chunk) = some (received, claimed))
    (htype : received.type = MsgType.newSess) (hrec : Record s.world.mem.users conn.source.bytes i u)
    (hrun : serve socketFd conn chunk s.clear = .ret r w) :
    s.world.held .userList = false ∧ s.world.held .rw = false ∧ ∃ sessionId, received.data.text? = some sessionId ∧
      (countInSession s.world.mem.users sessionId.bytes = 0 ∧ (∃ id, sessionId.copy? maxSessionLength = some id ∧
          w.mem.users = s.world.mem.users.modify i (User.create id)) ∨
        countInSession s.world.mem.users sessionId.bytes ≠ 0 ∧ w.mem.users = s.world.mem.users) := by
  have hrec' : Record s.clear.mem.users conn.source.bytes i u := hrec
  cases hdata : received.data.text? with
  | none =>
    rw [serve_unclosed hdec (Or.inr htype) hdata] at hrun
    cases hrun
  | some sessionId =>
    rw [serve_create hdec htype hdata, run_serverSideSessionCreate hrec'] at hrun
    cases hul : s.clear.held .userList with
    | true => simp [hul] at hrun
    | false =>
      cases hrw : s.clear.held .rw with
      | true => simp [hul, hrw] at hrun
      | false =>
        refine ⟨hul, hrw, sessionId, rfl, ?_⟩
        simp only [hul, hrw, Bool.false_eq_true, ↓reduceIte, created] at hrun
        split at hrun
        · rename_i hcount
          cases hid : sessionId.copy? maxSessionLength with
          | none => simp [hid] at hrun
          | some id =>
            simp only [hid, Option.map_some, run_finish_some, bind_ret, run_pure, Outcome.ret.injEq] at hrun
            exact Or.inl ⟨hcount, id, rfl, hrun.2 ▸ rfl⟩
        · rename_i hcount
          simp only [run_finish_some, bind_ret, run_pure, Outcome.ret.injEq] at hrun
          exact Or.inr ⟨hcount, hrun.2 ▸ rfl⟩

private theorem bytes_of_copy? {sessionId : CStr maxData} {id : CStr maxSessionLength}
    (hid : sessionId.copy? maxSessionLength = some id) : id.bytes = sessionId.bytes := CStr.ofBytes?_eq_some.1 hid

/-- Nobody's session is one that nobody is in. -/
private theorem ne_of_countInSession {users : List User} {id : CStr maxSessionLength}
    (hcount : countInSession users id.bytes = 0)
    (hu : u ∈ users) : u.sessionId ≠ id := by
  intro hsame
  have hnone := List.countP_eq_zero.1 hcount u hu
  simp [hsame] at hnone

/-- A `NEW_SESS` of a user who is in a session is served by refusing it, unless it switches. -/
private theorem refused_of_not_switches (hnot : ¬ Switches s (.recv socketFd chunk))
    (hconn : s.conns socketFd = .running conn)
    (hdec : decode (recvBuffer chunk) = some (received, claimed)) (htype : received.type = MsgType.newSess)
    (hrec : Record s.world.mem.users conn.source.bytes i u) (hin : u.inSession = .online)
    (hrun : serve socketFd conn chunk s.clear = .ret r w) : w.mem.users = s.world.mem.users := by
  obtain ⟨hul, hrw, sessionId, hdata, ⟨hcount, id, hid, -⟩ | ⟨-, husers⟩⟩ := serve_newSess hdec htype hrec hrun
  · rw [← bytes_of_copy? hid] at hcount
    exact absurd ⟨socketFd, chunk, conn, received, claimed, i, u, sessionId, id, rfl, hconn, hdec, htype, hrec, hin, hdata,
      hid, hcount, hul, hrw⟩ hnot
  · exact husers

/-- Any other request leaves a user in its session or takes it out of it. -/
theorem Touched.session {users : List User} {k : Nat} {u u' : User}
    (h : Touched users socketFd conn received claimed k u u') (hin : u.inSession = .online)
    (hin' : u'.inSession = .online) :
    u'.sessionId = u.sessionId ∨ received.type = MsgType.newSess ∧ Record users conn.source.bytes k u := by
  cases h with
  | same => exact Or.inl rfl
  | login _ _ _ => exact Or.inl rfl
  | exit _ h =>
    cases h with
    | same _ => exact Or.inl rfl
    | out _ _ => exact Or.inl rfl
    | own _ _ _ => cases hin'
    | last _ => exact Or.inl rfl
  | create htype hrec _ _ => exact Or.inr ⟨htype, hrec⟩
  | join _ _ _ href =>
    have hoff := (joinRefusal_eq_none href).1
    rw [hin] at hoff
    cases hoff
  | leave _ h =>
    cases h with
    | same _ => exact Or.inl rfl
    | own _ _ _ => cases hin'
    | last _ => exact Or.inl rfl
  | kick _ _ _ _ => cases hin'
  | promote _ _ _ _ => exact Or.inl rfl
  | demote _ _ _ => exact Or.inl rfl

/-- The users of a table that has not changed are in the sessions they were in. -/
private theorem same_of_eq {users users' : List User} (husers : users' = users) {i : Nat} {u u' : User}
    (hu : users[i]? = some u)
    (hu' : users'[i]? = some u') : u'.sessionId = u.sessionId := by
  rw [husers, hu] at hu'
  rw [Option.some.inj hu']

private theorem keepsSession_of_not_switches (hturn : Turn s e t) (hnot : ¬ Switches s e) : KeepsSession s e t := by
  constructor
  · intro i u u' hu hu' hin hin'
    have hwaits : ∀ {w : World Mutex Memory}, w.mem = s.clear.mem → w.mem.users[i]? = some u' →
        u'.sessionId = u.sessionId := by
      intro w hmem hget
      exact same_of_eq (congrArg Memory.users hmem) hu hget
    cases hturn with
    | accepted _ _ => exact same_of_eq rfl hu hu'
    | @served socketFd chunk conn received claimed r w hconn hdec hrun hserved =>
      rcases hserved.touched with hall | ⟨-, password, hnew⟩
      · obtain ⟨v, hv, htouch⟩ := hall.get i u hu
        obtain rfl : v = u' := Option.some.inj (hv.symm.trans hu')
        rcases htouch.session hin hin' with hsame | ⟨htype, hrec⟩
        · exact hsame
        · exact same_of_eq (refused_of_not_switches hnot hconn hdec htype hrec hin hrun) hu hv
      · obtain ⟨hlt, -⟩ := List.getElem?_eq_some_iff.1 hu
        have hget : w.mem.users[i]? = some u' := hu'
        rw [hnew] at hget
        have hold : (s.world.mem.users ++ [registeredUser claimed password socketFd])[i]? = some u' := hget
        -- a registration appends a record, and the old ones keep theirs
        rw [List.getElem?_append_left hlt] at hold
        exact same_of_eq rfl hu hold
    | recvWaits _ _ hmem => exact hwaits hmem hu'
    | disconnected _ _ hserved =>
      rcases hserved with ⟨-, hmem⟩ | ⟨-, hx⟩
      · exact hwaits hmem hu'
      · obtain ⟨v, hv, hquit⟩ := hx.quits.get i u hu
        obtain rfl : v = u' := Option.some.inj (hv.symm.trans hu')
        cases hquit with
        | same _ => rfl
        | out _ _ => rfl
        | own _ _ _ => cases hin'
        | last _ => rfl
    | disconnectWaits _ _ hmem => exact hwaits hmem hu'
  · rintro socketFd chunk conn received claimed i u rfl hconn hdec htype hrec hin
    cases hturn with
    | served hconn' hdec' hrun _ =>
      cases hconn.symm.trans hconn'
      exact refused_of_not_switches hnot hconn hdec htype hrec hin hrun
    | @recvWaits _ _ _ w _ _ hmem =>
      show w.mem.users = s.world.mem.users
      rw [hmem]
      rfl

/-- A `NEW_SESS` that switches is granted. -/
private theorem not_keepsSession_of_switches (hnext : s.next e = some t) (hswitch : Switches s e) :
    ¬ KeepsSession s e t := by
  obtain ⟨socketFd, chunk, conn, received, claimed, i, u, sessionId, id, rfl, hconn, hdec, htype, hrec, hin, hdata, hid,
    hcount, hul, hrw⟩ := hswitch
  intro hkeeps
  have husers := hkeeps.refused socketFd chunk conn received claimed i u rfl hconn hdec htype hrec hin
  have hmoved : t.world.mem.users = s.world.mem.users.modify i (User.create id) := by
    cases ServerState.turn hnext with
    | served hconn' hdec' hrun _ =>
      cases hconn.symm.trans hconn'
      obtain ⟨-, -, sessionId', hdata', ⟨-, id', hid', husers'⟩ | ⟨hcount', -⟩⟩ := serve_newSess hdec htype hrec hrun
      · cases hdata.symm.trans hdata'
        cases hid.symm.trans hid'
        exact husers'
      · cases hdata.symm.trans hdata'
        rw [bytes_of_copy? hid] at hcount
        exact absurd hcount hcount'
    | recvWaits hconn' hrun _ =>
      cases hconn.symm.trans hconn'
      have hrec' : Record s.clear.mem.users conn.source.bytes i u := hrec
      have hul' : s.clear.held .userList = false := hul
      have hrw' : s.clear.held .rw = false := hrw
      rw [bytes_of_copy? hid] at hcount
      have hcount' : countInSession s.clear.mem.users sessionId.bytes = 0 := hcount
      -- no mutex is held and the name fits, so the thread does not wait
      rw [serve_create hdec htype hdata, run_serverSideSessionCreate hrec'] at hrun
      simp [hul', hrw', created, hcount', hid] at hrun
  have hget : t.world.mem.users[i]? = some (u.create id) := by
    rw [hmoved, List.getElem?_modify_eq, hrec.get]
    rfl
  rw [husers, hrec.get, Option.some.injEq] at hget
  exact ne_of_countInSession hcount hrec.mem (congrArg User.sessionId hget)

end Create

/-- A user is in one session at a time, and changes it only by leaving, exactly at the events that do not switch. -/
theorem one_session_at_a_time {s t : ServerState} {e : Event} (hnext : s.next e = some t) :
    KeepsSession s e t ↔ ¬ Switches s e := by
  constructor
  · intro hkeeps hswitch
    exact not_keepsSession_of_switches hnext hswitch hkeeps
  · intro hnot
    exact keepsSession_of_not_switches (ServerState.turn hnext) hnot

/-- The events after which `bob` is in the session `a`. -/
def bobInA : List Event :=
  [.accept 3 serverName, .recv 3 (ascii "13:1:bob:x"), .recv 3 (ascii "8:1:bob:a")]

/-- Asked for a session of the same name, the server refuses it. -/
theorem one_session_at_a_time_refused : ∃ s t, afterEvents bobInA = some s ∧
    s.next (.recv 3 (ascii "8:1:bob:a")) = some t ∧ KeepsSession s (.recv 3 (ascii "8:1:bob:a")) t := by
  obtain ⟨s, t, hs, hnext, -⟩ := afterEvents_last bobInA (.recv 3 (ascii "8:1:bob:a")) (by decide)
  refine ⟨s, t, hs, hnext, (one_session_at_a_time hnext).2 ?_⟩
  rintro ⟨socketFd, chunk, conn, received, claimed, i, u, sessionId, id, he, -, hdec, -, -, -, hdata, hid, hcount, -⟩
  cases he
  have hname : (decode (recvBuffer (ascii "8:1:bob:a"))).map (fun p => cstr p.1.data.bytes) = some (ascii "a") := by decide
  rw [hdec, Option.map_some, Option.some.injEq, CArray.cstr_of_text? hdata] at hname
  have hone : countInSession s.world.mem.users (ascii "a") = 1 :=
    of_afterEvents (f := fun s => countInSession s.world.mem.users (ascii "a")) hs (by decide)
  rw [bytes_of_copy? hid, hname, hone] at hcount
  cases hcount

/-- Asked for the session `b`, the server puts `bob` into it. -/
theorem one_session_at_a_time_fails : ¬ ∀ s e t, Reachable server s → s.next e = some t → KeepsSession s e t := by
  intro h
  obtain ⟨s, t, hs, hnext, ht⟩ := afterEvents_last bobInA (.recv 3 (ascii "8:1:bob:b")) (by decide)
  have hkeeps := h s _ t (reachable_afterEvents hs) hnext
  let session (s : ServerState) := (s.world.mem.users[0]?).map fun u => (u.inSession, u.sessionId.bytes)
  have hbefore : session s = some (.online, ascii "a") := of_afterEvents hs (by decide)
  have hafter : session t = some (.online, ascii "b") := of_afterEvents ht (by decide)
  obtain ⟨u, hu, hu'⟩ := Option.map_eq_some_iff.1 hbefore
  obtain ⟨v, hv, hv'⟩ := Option.map_eq_some_iff.1 hafter
  rw [Prod.mk.injEq] at hu' hv'
  have hsame := hkeeps.same 0 u v hu hv hu'.1 hv'.1
  have hbytes := hv'.2.symm.trans ((congrArg CStr.bytes hsame).trans hu'.2)
  exact absurd hbytes (by decide)

end Conferencing
