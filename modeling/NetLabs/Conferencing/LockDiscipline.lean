import NetLabs.Conferencing.Runs

/-!
# Lock discipline

From a state in which both mutexes are free, a request is served to its end with both free again exactly when it is
`ServedSafely`.  The requests that fail are of two kinds.  `LEAVE_SESS` of a user who is in no session returns with
`user_list_mutex` held, and the ways out of a session whose name is the reserved text (`LEAVE_SESS`, `EXIT`, a
disconnect) return with `rw_mutex` held: the two early returns without an unlock.  The others are undefined: a text
that does not fit its array, or a name that is not in the table.
-/

namespace Conferencing

open CText LockProg Transition

/-! ### Outcomes that leave both mutexes free -/

/-- The handler returns, with both mutexes free. -/
def ReleasesBoth {α : Type} (o : Outcome Mutex Memory α) : Prop := ∃ a w, o = .ret a w ∧ w.Free

section Releases

variable {α β : Type}

@[simp] theorem releases_ret (a : α) (w : World Mutex Memory) : ReleasesBoth (.ret a w) ↔ w.Free := by
  constructor
  · rintro ⟨_, _, h, hw⟩
    cases h
    exact hw
  · exact fun hw => ⟨a, w, rfl, hw⟩

@[simp] theorem releases_blocked (w : World Mutex Memory) : ¬ ReleasesBoth (.blocked w : Outcome Mutex Memory α) := by
  rintro ⟨_, _, h, -⟩
  cases h

@[simp] theorem releases_fault : ¬ ReleasesBoth (.fault : Outcome Mutex Memory α) := by
  rintro ⟨_, _, h, -⟩
  cases h

@[simp] theorem releases_bind_pure (o : Outcome Mutex Memory α) (b : β) :
    ReleasesBoth (o.bind fun _ => pure b) ↔ ReleasesBoth o := by
  cases o <;> simp

@[simp] theorem free_setMem (w : World Mutex Memory) (m : Memory) : (w.setMem m).Free ↔ w.Free := Iff.rfl

@[simp] theorem not_free_acquire (w : World Mutex Memory) (l : Mutex) : ¬ (w.acquire l).Free := by
  intro h
  have := h l
  simp at this

end Releases

/-! ### Texts built by the server hold no NUL -/

private theorem nul_not_mem_padRight {width : Nat} {s : Bytes} (hs : (0 : Byte) ∉ s) :
    (0 : Byte) ∉ padRight width s := by
  simp [padRight, hs]

theorem nul_not_mem_activeUserText (users : List User) : (0 : Byte) ∉ activeUserText users := by
  have hhead : (0 : Byte) ∉ ascii "Active User List:\n" ++ activeUserLine (ascii "Username") (ascii "Session ID") := by
    decide
  simp only [activeUserText, List.mem_append, List.mem_flatMap, not_or, not_exists, not_and] at hhead ⊢
  refine ⟨hhead, fun u _ => ?_⟩
  simp only [activeUserLine, List.mem_append, List.mem_cons, List.not_mem_nil, or_false, not_or]
  exact ⟨nul_not_mem_padRight u.username.nulFree, by decide, nul_not_mem_padRight u.sessionId.nulFree, by decide⟩

theorem nul_not_mem_sessionUserText (users : List User) (sessionId : Bytes) :
    (0 : Byte) ∉ sessionUserText users sessionId := by
  have hhead : (0 : Byte) ∉ ascii "Active User List:\n" ++
      sessionUserLine (ascii "Username") (ascii "Session ID") (ascii "Role") := by
    decide
  simp only [sessionUserText, List.mem_append, List.mem_flatMap, not_or, not_exists, not_and] at hhead ⊢
  refine ⟨hhead, fun u _ => ?_⟩
  have hrole : (0 : Byte) ∉ u.role.name := by cases u.role <;> decide
  simp only [sessionUserLine, List.mem_append, List.mem_cons, List.not_mem_nil, or_false, not_or]
  exact ⟨nul_not_mem_padRight u.username.nulFree, by decide, nul_not_mem_padRight u.sessionId.nulFree, by decide,
    nul_not_mem_padRight hrole, by decide⟩

/-- A list text reaches its reply when it fits the data array of a message. -/
theorem listText_cases {text : Bytes} (h0 : (0 : Byte) ∉ text) :
    text.length < maxData ∧ (∃ list, CStr.ofBytes? maximumBufferSize text = some list ∧
      ∃ data, list.copy? maxData = some data) ∨
    ¬ text.length < maxData ∧ ∀ list, CStr.ofBytes? maximumBufferSize text = some list → list.copy? maxData = none := by
  by_cases hlt : text.length < maxData
  · left
    have hlt' : text.length < maximumBufferSize := Nat.lt_trans hlt (by decide)
    refine ⟨hlt, ⟨text, h0, hlt'⟩, CStr.ofBytes?_isSome h0 hlt', ⟨text, h0, hlt⟩, CStr.ofBytes?_isSome h0 hlt⟩
  · right
    refine ⟨hlt, fun list hlist => ?_⟩
    have hbytes := CStr.ofBytes?_eq_some.1 hlist
    simp only [CStr.copy?, CStr.ofBytes?, hbytes]
    simp [hlt]

/-! ### The condition -/

/-- The user can end the connection: not inside a session of the reserved name. -/
def User.MayExit (u : User) : Prop := ¬ (u.inSession = .online ∧ u.sessionId = notInSession)

/-- The user can leave: inside a session, and not one of the reserved name. -/
def User.MayLeave (u : User) : Prop := u.inSession = .online ∧ u.sessionId ≠ notInSession

/-- The requests that are served to their end with both mutexes free, for a connection whose record is `own`: the
ways out of a session at the right moment, and everything else inside its arrays. -/
def ServedSafely (users : List User) (own : Option User) (buffer : Bytes) (received : Message)
    (claimed : CStr maxName) : Prop :=
  if received.type = MsgType.login then True
  else if received.type = MsgType.create then (cstr received.data.bytes).length < maxPasswordLength
  else if received.type = MsgType.exit then ∃ u, own = some u ∧ u.MayExit
  else if received.type = MsgType.join then own ≠ none ∧ received.data.text? ≠ none
  else if received.type = MsgType.newSess then own ≠ none ∧ ∃ text, received.data.text? = some text ∧
    (countInSession users text.bytes = 0 → text.bytes.length < maxSessionLength)
  else if received.type = MsgType.leaveSess then ∃ u, own = some u ∧ u.MayLeave
  else if received.type = MsgType.query then (activeUserText users).length < maxData
  else if received.type = MsgType.sessQuery then ∃ text, received.data.text? = some text ∧
    (countInSession users text.bytes ≠ 0 → (sessionUserText users text.bytes).length < maxData)
  else if received.type = MsgType.message then databaseSearchUser users claimed.bytes ≠ none
  else if received.type = MsgType.kick ∨ received.type = MsgType.promote then own ≠ none
  else (0 : Byte) ∈ buffer

/-! ### Each handler from free mutexes -/

section Handlers

variable {w : World Mutex Memory} {name : CStr maxName} {i : Nat} {u : User}

private theorem releases_exit (hw : w.Free) (name : CStr maxName) :
    ReleasesBoth (serverSideUserExit name w) ↔ ∃ u, ownRecord w.mem.users name.bytes = some u ∧ u.MayExit := by
  rcases record_or_none w.mem.users name.bytes with h | ⟨i, u, hrec⟩
  · simp [exit_notFound h, ownRecord_none h]
  · rw [run_serverSideUserExit hrec, ownRecord_eq hrec]
    cases hin : u.inSession with
    | offline => simp [hw, hw .userList, User.MayExit, hin]
    | online =>
      by_cases hid : u.sessionId = notInSession
      · simp [hw .userList, hw .rw, User.MayExit, hin, hid]
      · simp [hw, hw .userList, hw .rw, User.MayExit, hid]

private theorem releases_leave (hw : w.Free) (name : CStr maxName) :
    ReleasesBoth (serverSideSessionLeave name w) ↔
      ∃ u, ownRecord w.mem.users name.bytes = some u ∧ u.MayLeave := by
  rcases record_or_none w.mem.users name.bytes with h | ⟨i, u, hrec⟩
  · simp [leave_notFound h, ownRecord_none h, hw .userList]
  · rw [run_serverSideSessionLeave hrec, ownRecord_eq hrec]
    cases hin : u.inSession with
    | offline => simp [hw .userList, User.MayLeave, hin]
    | online =>
      by_cases hid : u.sessionId = notInSession
      · simp [hw .userList, hw .rw, User.MayLeave, hid]
      · simp [hw, hw .userList, hw .rw, User.MayLeave, hin, hid]

/-- A session that somebody is in has a name that fits. -/
private theorem copy?_of_count {users : List User} {sessionId : CStr maxData}
    (h : countInSession users sessionId.bytes ≠ 0) : ∃ id, sessionId.copy? maxSessionLength = some id := by
  obtain ⟨v, -, hv⟩ := List.countP_pos_iff.1 (Nat.pos_of_ne_zero h)
  exact ⟨v.sessionId, CStr.ofBytes?_eq_some.2 (by simpa using hv)⟩

private theorem releases_join (hw : w.Free) (name : CStr maxName) (sessionId : CStr maxData) :
    ReleasesBoth (serverSideSessionJoin name sessionId w) ↔ ownRecord w.mem.users name.bytes ≠ none := by
  rcases record_or_none w.mem.users name.bytes with h | ⟨i, u, hrec⟩
  · simp [join_notFound h, ownRecord_none h, hw .userList, hw .rw]
  · rw [run_serverSideSessionJoin hrec, ownRecord_eq hrec]
    have hsome : ∃ m, joined w.mem i u name sessionId = some m := by
      unfold joined
      split
      · exact ⟨_, rfl⟩
      · rename_i href
        obtain ⟨id, hid⟩ := copy?_of_count (joinRefusal_eq_none href).2
        exact ⟨_, by rw [hid]; rfl⟩
    obtain ⟨m, hm⟩ := hsome
    simp [hw, hw .userList, hw .rw, hm]

private theorem releases_create (hw : w.Free) (name : CStr maxName) (sessionId : CStr maxData) :
    ReleasesBoth (serverSideSessionCreate name sessionId w) ↔ ownRecord w.mem.users name.bytes ≠ none ∧
      (countInSession w.mem.users sessionId.bytes = 0 → sessionId.bytes.length < maxSessionLength) := by
  rcases record_or_none w.mem.users name.bytes with h | ⟨i, u, hrec⟩
  · simp [create_notFound h, ownRecord_none h, hw .userList, hw .rw]
  · rw [run_serverSideSessionCreate hrec, ownRecord_eq hrec]
    simp only [hw .userList, hw .rw, Bool.false_eq_true, ↓reduceIte, created]
    by_cases h0 : countInSession w.mem.users sessionId.bytes = 0
    · simp only [h0, ↓reduceIte]
      by_cases hlt : sessionId.bytes.length < maxSessionLength
      · have hid : sessionId.copy? maxSessionLength = some ⟨sessionId.bytes, sessionId.nulFree, hlt⟩ :=
          CStr.ofBytes?_isSome sessionId.nulFree hlt
        simp [hid, hw, hlt]
      · have hid : sessionId.copy? maxSessionLength = none := by
          simp [CStr.copy?, CStr.ofBytes?, hlt]
        simp [hid, hlt]
    · simp [h0, hw]

private theorem releases_withTarget (hw : w.Free) {nak : UInt32} (hnak : nak ≠ MsgType.message) (name : CStr maxName)
    (target : Bytes) {grant : Option Nat → Option Nat → Handler Unit}
    (hgrant : ∀ i u, Record w.mem.users name.bytes i u → refusal w.mem.users target u = none →
      ReleasesBoth (withTarget nak name target grant w)) :
    ReleasesBoth (withTarget nak name target grant w) ↔ ownRecord w.mem.users name.bytes ≠ none := by
  rcases record_or_none w.mem.users name.bytes with h | ⟨i, u, hrec⟩
  · simp [withTarget_notFound h, ownRecord_none h, hw .userList]
  · rw [ownRecord_eq hrec]
    cases href : refusal w.mem.users target u with
    | some code => simp [run_withTarget hnak hrec, href, hw, hw .userList]
    | none => simpa using hgrant i u hrec href

private theorem releases_kick (hw : w.Free) (name : CStr maxName) (target : Bytes) :
    ReleasesBoth (serverSideKickUser name target w) ↔ ownRecord w.mem.users name.bytes ≠ none := by
  refine releases_withTarget hw (by decide) name target fun i u hrec href => ?_
  obtain ⟨j, t, ht, -⟩ := refusal_eq_none href
  have := run_serverSideKickUser hrec ht
  rw [href] at this
  show ReleasesBoth (serverSideKickUser name target w)
  simp [this, hw, hw .userList]

private theorem releases_promote (hw : w.Free) (name : CStr maxName) (target : Bytes) :
    ReleasesBoth (serverSidePromoteUser name target w) ↔ ownRecord w.mem.users name.bytes ≠ none := by
  refine releases_withTarget hw (by decide) name target fun i u hrec href => ?_
  obtain ⟨j, t, ht, -⟩ := refusal_eq_none href
  have := run_serverSidePromoteUser hrec ht
  rw [href] at this
  show ReleasesBoth (serverSidePromoteUser name target w)
  simp [this, hw, hw .userList]

end Handlers

/-! ### Serving a message from free mutexes -/

private theorem releases_dispatch {w : World Mutex Memory} (hw : w.Free) (socketFd : Nat) (conn : Conn) (buffer : Bytes)
    {received : Message} (claimed : CStr maxName) (hsize : received.size.toNat ≤ maxData) :
    ReleasesBoth (dispatch socketFd conn buffer received claimed w) ↔
      ServedSafely w.mem.users (ownRecord w.mem.users conn.source.bytes) buffer received claimed := by
  unfold dispatch ServedSafely
  by_cases hlogin : received.type = MsgType.login
  · simp only [if_pos hlogin, run_bind, run_verifyLogin, bind_ret, iff_true]
    have hack := run_fillAndSend (show MsgType.loAck ≠ MsgType.message by decide)
    have hnak := run_fillAndSend (show MsgType.loNak ≠ MsgType.message by decide)
    split
    · rename_i hcode
      obtain ⟨i, u, hrec, -, -⟩ := loginCode_success hcode
      simp [run_userLogin hrec, hw .userList, hack, hw]
    · simp [hnak, hw]
  rw [if_neg hlogin, if_neg hlogin]
  by_cases hcreate : received.type = MsgType.create
  · rw [if_pos hcreate, if_pos hcreate]
    have hack := run_fillAndSend (show MsgType.rgAck ≠ MsgType.message by decide)
    have hnak := run_fillAndSend (show MsgType.rgNak ≠ MsgType.message by decide)
    simp only [run_bind, run_userRegistration, hw .userList, hw .rw, Bool.false_eq_true, ↓reduceIte]
    by_cases hlt : (cstr received.data.bytes).length < maxPasswordLength
    · rw [CStr.ofBytes?_isSome (nulFree_cstr _) hlt]
      simp only [bind_ret, hlt, iff_true]
      split
      · simp [hack, hw]
      · simp [hnak, hw]
    · simp [CStr.ofBytes?, hlt]
  rw [if_neg hcreate, if_neg hcreate]
  by_cases hexit : received.type = MsgType.exit
  · rw [if_pos hexit, if_pos hexit]
    exact (releases_bind_pure _ _).trans (releases_exit hw conn.source)
  rw [if_neg hexit, if_neg hexit]
  by_cases hjoin : received.type = MsgType.join
  · rw [if_pos hjoin, if_pos hjoin]
    cases received.data.text? with
    | none => simp
    | some data =>
      refine ((releases_bind_pure _ _).trans (releases_join hw conn.source data)).trans ?_
      simp
  rw [if_neg hjoin, if_neg hjoin]
  by_cases hnew : received.type = MsgType.newSess
  · rw [if_pos hnew, if_pos hnew]
    cases received.data.text? with
    | none => simp
    | some data =>
      refine ((releases_bind_pure _ _).trans (releases_create hw conn.source data)).trans ?_
      simp
  rw [if_neg hnew, if_neg hnew]
  by_cases hleave : received.type = MsgType.leaveSess
  · rw [if_pos hleave, if_pos hleave]
    exact (releases_bind_pure _ _).trans (releases_leave hw conn.source)
  rw [if_neg hleave, if_neg hleave]
  by_cases hquery : received.type = MsgType.query
  · rw [if_pos hquery, if_pos hquery]
    have hack := run_fillAndSend (show MsgType.quAck ≠ MsgType.message by decide)
    simp only [run_bind, run_getActiveUserListInDatabase, hw .rw, Bool.false_eq_true, ↓reduceIte]
    rcases listText_cases (nul_not_mem_activeUserText w.mem.users) with ⟨hlt, list, hlist, data, hdata⟩ | ⟨hlt, hnone⟩
    · simp [hlist, hdata, hack, hlt, hw]
    · cases hlist : CStr.ofBytes? maximumBufferSize (activeUserText w.mem.users) with
      | none => simp [hlt]
      | some list => simp [hnone list hlist, hlt]
  rw [if_neg hquery, if_neg hquery]
  by_cases hsess : received.type = MsgType.sessQuery
  · rw [if_pos hsess, if_pos hsess]
    have hack := run_fillAndSend (show MsgType.sqAck ≠ MsgType.message by decide)
    have hnak := run_fillAndSend (show MsgType.sqNak ≠ MsgType.message by decide)
    cases received.data.text? with
    | none => simp
    | some data =>
      simp only [run_bind, run_checked_some, bind_ret, run_getActiveUserListInASession, hw .rw, Bool.false_eq_true,
        ↓reduceIte, Option.some.injEq, exists_eq_left']
      by_cases h0 : countInSession w.mem.users data.bytes = 0
      · simp [h0, hnak, hw]
      · rcases listText_cases (nul_not_mem_sessionUserText w.mem.users data.bytes) with
          ⟨hlt, list, hlist, text, htext⟩ | ⟨hlt, hnone⟩
        · simp [h0, hlist, htext, hack, hlt, hw]
        · cases hlist : CStr.ofBytes? maximumBufferSize (sessionUserText w.mem.users data.bytes) with
          | none => simp [h0, hlt]
          | some list => simp [h0, hnone list hlist, hlt]
  rw [if_neg hsess, if_neg hsess]
  by_cases hmessage : received.type = MsgType.message
  · rw [if_pos hmessage, if_pos hmessage]
    obtain ⟨r, hfill, hchat⟩ := fillMessage_chat .zero hsize claimed
      (show received.size.toNat ≤ received.data.bytes.length by rw [received.data.size_eq]; exact hsize)
    simp only [run_bind, hfill, run_checked_some, bind_ret, run_read]
    rcases record_or_none w.mem.users claimed.bytes with h | ⟨i, u, hrec⟩
    · have hfound : returnUserByUsername w.mem.users claimed.bytes = none := h
      simp [hfound, h, deref]
    · have hfound : returnUserByUsername w.mem.users claimed.bytes = some i := hrec.found
      have hfound' : databaseSearchUser w.mem.users claimed.bytes = some i := hrec.found
      simp [hfound, hfound', run_deref hrec.get, run_sendMessageInASession hchat, hw .userList, hw]
  rw [if_neg hmessage, if_neg hmessage]
  by_cases hkick : received.type = MsgType.kick
  · rw [if_pos hkick, if_pos (Or.inl hkick)]
    exact (releases_bind_pure _ _).trans (releases_kick hw conn.source _)
  rw [if_neg hkick]
  by_cases hpromote : received.type = MsgType.promote
  · rw [if_pos hpromote, if_pos (Or.inr hpromote)]
    exact (releases_bind_pure _ _).trans (releases_promote hw conn.source _)
  have hneither : ¬ (received.type = MsgType.kick ∨ received.type = MsgType.promote) := not_or.2 ⟨hkick, hpromote⟩
  rw [if_neg hpromote, if_neg hneither]
  by_cases hbuf : (0 : Byte) ∈ buffer
  · simp [hbuf, hw]
  · simp [hbuf]

private theorem releases_serve {w : World Mutex Memory} (hw : w.Free) (socketFd : Nat) (conn : Conn) {chunk : Bytes}
    {received : Message} {claimed : CStr maxName} (hdec : decode (recvBuffer chunk) = some (received, claimed)) :
    ReleasesBoth (serve socketFd conn chunk w) ↔
      ServedSafely w.mem.users (ownRecord w.mem.users conn.source.bytes) (recvBuffer chunk) received claimed := by
  simp only [serve, hdec, run_bind, run_checked_some, bind_ret]
  exact releases_dispatch hw socketFd conn _ claimed (decode_eq_some hdec).2.2

/-- The connection may end: nobody is logged in on it, or the user may exit. -/
def EndsSafely (users : List User) (conn : Conn) : Prop :=
  conn.serverConnectionStatus = .online → ∃ u, ownRecord users conn.source.bytes = some u ∧ u.MayExit

private theorem releases_serveDisconnect {w : World Mutex Memory} (hw : w.Free) (conn : Conn) :
    ReleasesBoth (serveDisconnect conn w) ↔ EndsSafely w.mem.users conn := by
  cases hst : conn.serverConnectionStatus with
  | offline => simp [serveDisconnect, EndsSafely, hst, hw]
  | online =>
    have := releases_exit hw conn.source
    simp [serveDisconnect, EndsSafely, hst, this]

/-! ### Reachable states and runs -/

/-- An event that finishes with both mutexes free when it starts with both free. -/
def EventSafe (s : ServerState) : Event → Prop
  | .accept _ _ => True
  | .recv socketFd chunk => ∀ conn received claimed, s.conns socketFd = .running conn →
      decode (recvBuffer chunk) = some (received, claimed) →
      ServedSafely s.world.mem.users (ownRecord s.world.mem.users conn.source.bytes) (recvBuffer chunk) received claimed
  | .disconnect socketFd => ∀ conn, s.conns socketFd = .running conn → EndsSafely s.world.mem.users conn

private theorem free_of_turn {s t : ServerState} {e : Event} (h : Turn s e t) (hfree : s.world.Free)
    (hsafe : EventSafe s e) :
    t.world.Free := by
  have hclear : s.clear.Free := hfree
  cases h with
  | accepted _ _ => exact hclear
  | @served fd chunk conn _ _ _ _ hconn hdec hrun _ =>
    have hdone := (releases_serve hclear fd conn hdec).2 (hsafe _ _ _ hconn hdec)
    rwa [hrun, releases_ret] at hdone
  | @recvWaits fd chunk conn w hconn hrun _ =>
    cases hdec : decode (recvBuffer chunk) with
    | none => simp [serve, hdec] at hrun
    | some p =>
      have hdone := (releases_serve hclear fd conn hdec).2 (hsafe _ _ _ hconn hdec)
      rw [hrun] at hdone
      exact absurd hdone (releases_blocked w)
  | @disconnected fd conn w hconn hrun _ =>
    have hdone := (releases_serveDisconnect hclear conn).2 (hsafe _ hconn)
    rwa [hrun, releases_ret] at hdone
  | @disconnectWaits fd conn w hconn hrun _ =>
    have hdone := (releases_serveDisconnect hclear conn).2 (hsafe _ hconn)
    rw [hrun] at hdone
    exact absurd hdone (releases_blocked w)

/-- In every run of safe events both mutexes are free in every state. -/
theorem free_of_reachable {s : ServerState} (hr : Reachable (server.when EventSafe) s) : s.world.Free := by
  induction hr with
  | init h =>
    obtain ⟨file, users, -, rfl⟩ := h
    exact fun _ => rfl
  | step _ hst ih => exact free_of_turn (ServerState.turn hst.2) ih hst.1

/-- Lock discipline.  From a state with both mutexes free, a request or the disconnect of a connection is served without
waiting, to its end, and with both mutexes free again, exactly when it is `ServedSafely` (`EndsSafely`). -/
theorem lock_discipline {s : ServerState} (hfree : s.world.Free) (socketFd : Nat) (conn : Conn) :
    (∀ chunk received claimed, decode (recvBuffer chunk) = some (received, claimed) →
      (ReleasesBoth (serve socketFd conn chunk s.clear) ↔ ServedSafely s.world.mem.users
        (ownRecord s.world.mem.users conn.source.bytes) (recvBuffer chunk) received claimed)) ∧
    (ReleasesBoth (serveDisconnect conn s.clear) ↔ EndsSafely s.world.mem.users conn) := by
  have hclear : s.clear.Free := hfree
  exact ⟨fun chunk received claimed hdec => releases_serve hclear socketFd conn hdec,
    releases_serveDisconnect hclear conn⟩

/-- Whether both mutexes are free is read off the state after some events. -/
private theorem free_of_events {events : List Event} {s : ServerState} (hs : afterEvents events = some s)
    (h : (afterEvents events).map (fun s => (s.world.held .userList, s.world.held .rw)) = some (false, false)) :
    s.world.Free := by
  obtain ⟨hul, hrw⟩ := Prod.mk.inj (of_afterEvents (f := fun s => (s.world.held .userList, s.world.held .rw)) hs h)
  intro l
  cases l <;> assumption

theorem lock_discipline_kick : ∃ s, afterEvents [.accept 3 ⟨ascii "bob", by decide, by decide⟩,
      .recv 3 (ascii "13:1:bob:x")] = some s ∧
    ReleasesBoth (serve 3 ⟨⟨ascii "bob", by decide, by decide⟩, .online⟩ (ascii "16:3:bob:ann") s.clear) := by
  obtain ⟨s, hs⟩ := Option.isSome_iff_exists.1 (show (afterEvents [.accept 3 ⟨ascii "bob", by decide, by decide⟩,
    .recv 3 (ascii "13:1:bob:x")]).isSome = true by decide)
  have hfree : s.world.Free := free_of_events hs (by decide)
  have hown : (ownRecord s.world.mem.users (ascii "bob")).isSome = true :=
    of_afterEvents (f := fun s => (ownRecord s.world.mem.users (ascii "bob")).isSome) hs (by decide)
  obtain ⟨p, hp⟩ : ∃ p, decode (recvBuffer (ascii "16:3:bob:ann")) = some p := Option.isSome_iff_exists.1 (by decide)
  have htype : p.1.type = MsgType.kick := by
    have hd : (decode (recvBuffer (ascii "16:3:bob:ann"))).map (fun p => p.1.type) = some MsgType.kick := by decide
    rw [hp] at hd
    exact Option.some.inj hd
  refine ⟨s, hs, ((lock_discipline hfree 3 _).1 _ _ _ hp).2 ?_⟩
  unfold ServedSafely
  rw [htype]
  exact Option.isSome_iff_ne_none.1 hown

/-- `bob` registers, and leaves the session he is not in: `user_list_mutex` stays held. -/
theorem lock_discipline_fails : ¬ ∀ s, Reachable server s → s.world.Free → ∀ socketFd conn,
    s.conns socketFd = .running conn → conn.serverConnectionStatus = .online →
    ∀ chunk received claimed, decode (recvBuffer chunk) = some (received, claimed) →
      ReleasesBoth (serve socketFd conn chunk s.clear) := by
  intro h
  let bob : CStr maxName := ⟨ascii "bob", by decide, by decide⟩
  obtain ⟨s, hs⟩ : ∃ s, afterEvents [.accept 3 bob, .recv 3 (ascii "13:1:bob:x")] = some s :=
    Option.isSome_iff_exists.1 (by decide)
  have hfree : s.world.Free := free_of_events hs (by decide)
  have hconn : s.conns 3 = .running ⟨bob, .online⟩ :=
    of_afterEvents (f := fun s => s.conns 3) hs (by decide)
  obtain ⟨p, hdec⟩ : ∃ p, decode (recvBuffer (ascii "7:0:bob:")) = some p := Option.isSome_iff_exists.1 (by decide)
  obtain ⟨a, w, hrun, hw⟩ := h s (reachable_afterEvents hs) hfree 3 _ hconn rfl _ p.1 p.2 hdec
  let heldAfter : ServerState → Bool := fun s =>
    match serve 3 ⟨bob, .online⟩ (ascii "7:0:bob:") s.clear with
    | .ret _ w => w.held .userList
    | _ => false
  have hheld : heldAfter s = true := of_afterEvents (f := heldAfter) hs (by decide)
  simp only [heldAfter, hrun, hw .userList] at hheld
  cases hheld

end Conferencing
