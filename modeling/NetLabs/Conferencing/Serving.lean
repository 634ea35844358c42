import NetLabs.Conferencing.Effects

/-!
# What one event can do

`Served` lists everything that serving one message can do to the memory and to the locals of its connection, whatever
mutexes are held when it arrives: a handler that has to wait has changed nothing (`serve_yields`).  Every invariant of
the server is proved from this list.
-/

namespace Conferencing

open CText LockProg Transition

/-! ### The decoded message -/

theorem decode_eq_some {buffer : Bytes} {received : Message} {claimed : CStr maxName}
    (h : decode buffer = some (received, claimed)) :
    received.source.text? = some claimed ∧ colon ∉ claimed.bytes ∧ received.size.toNat ≤ maxData := by
  unfold decode at h
  obtain ⟨m, hm, h⟩ := Option.bind_eq_some_iff.1 h
  obtain ⟨c, hc, h⟩ := Option.bind_eq_some_iff.1 h
  cases h
  obtain ⟨t, n, s, rest, hreads⟩ := stringToMessage_some hm
  refine ⟨hc, ?_, hreads.size_le⟩
  obtain ⟨tail, htail⟩ := CArray.bytes_of_text? hc
  rw [hreads.source_eq] at htail
  -- the C string ends before the NUL that closes the field
  have hpre : claimed.bytes <+: s := by
    have hlen : claimed.bytes.length ≤ s.length := by
      by_contra hlt
      have hget := congrArg (fun l => l[s.length]?) htail
      simp only [List.getElem?_append_right (Nat.le_refl _), Nat.sub_self,
        List.getElem?_append_left (Nat.lt_of_not_le hlt)] at hget
      exact claimed.nulFree (List.mem_of_getElem? hget.symm)
    have h₁ : claimed.bytes <+: s ++ 0 :: Message.zero.source.bytes.drop (s.length + 1) := by
      rw [htail]
      exact List.prefix_append _ _
    exact List.prefix_of_prefix_length_le h₁ (List.prefix_append _ _) hlen
  exact fun hmem => hreads.source_field (hpre.subset hmem)

theorem decode_wireOf (type : UInt32) {source : CStr maxName} (data : Option (CStr maxData))
    (hcolon : colon ∉ source.bytes) :
    decode (recvBuffer (wireOf type source data)) = some (reply type source (textOrEmpty data), source) := by
  simp only [decode, stringToMessage_wire (CArray.zero 12) type (textOrEmpty data) hcolon, Option.bind_eq_bind,
    Option.bind_some, text_reply_source]
  rfl

/-! ### Handlers of a name that is not in the table -/

section NotFound

variable {w : World Mutex Memory} {name : CStr maxName}

theorem leave_notFound (h : databaseSearchUser w.mem.users name.bytes = none) :
    serverSideSessionLeave name w = if w.held .userList then .blocked w else .fault := by
  cases hul : w.held .userList with
  | true => simp [serverSideSessionLeave, run_lock_held hul]
  | false => simp [serverSideSessionLeave, run_lock hul, h, deref]

theorem exit_notFound (h : databaseSearchUser w.mem.users name.bytes = none) :
    serverSideUserExit name w = .fault := by
  simp [serverSideUserExit, h, deref]

theorem join_notFound (h : databaseSearchUser w.mem.users name.bytes = none) (sessionId : CStr maxData) :
    serverSideSessionJoin name sessionId w =
      if w.held .userList then .blocked w else if w.held .rw then .blocked (w.acquire .userList) else .fault := by
  cases hul : w.held .userList with
  | true => simp [serverSideSessionJoin, run_lock_held hul]
  | false =>
    have hheld : (w.acquire .userList).held .rw = w.held .rw := w.held_acquire_of_ne (by decide)
    cases hrw : w.held .rw with
    | true => simp [serverSideSessionJoin, run_lock hul, run_getUserCountInASession_held (hheld.trans hrw)]
    | false => simp [serverSideSessionJoin, run_lock hul, run_getUserCountInASession (hheld.trans hrw), h, deref]

theorem create_notFound (h : databaseSearchUser w.mem.users name.bytes = none) (sessionId : CStr maxData) :
    serverSideSessionCreate name sessionId w =
      if w.held .userList then .blocked w else if w.held .rw then .blocked (w.acquire .userList) else .fault := by
  cases hul : w.held .userList with
  | true => simp [serverSideSessionCreate, run_lock_held hul]
  | false =>
    have hheld : (w.acquire .userList).held .rw = w.held .rw := w.held_acquire_of_ne (by decide)
    cases hrw : w.held .rw with
    | true => simp [serverSideSessionCreate, run_lock hul, run_getUserCountInASession_held (hheld.trans hrw)]
    | false =>
      simp only [serverSideSessionCreate, run_bind, run_lock hul, bind_ret, run_read, World.mem_acquire, h,
        run_getUserCountInASession (hheld.trans hrw)]
      split
      · cases sessionId.copy? maxSessionLength <;> simp [update]
      · simp [deref]

theorem withTarget_notFound (h : databaseSearchUser w.mem.users name.bytes = none) (nak : UInt32) (target : Bytes)
    (grant : Option Nat → Option Nat → Handler Unit) :
    withTarget nak name target grant w = if w.held .userList then .blocked w else .fault := by
  cases hul : w.held .userList with
  | true => simp [withTarget, run_lock_held hul]
  | false =>
    simp only [withTarget, run_bind, run_lock hul, bind_ret, run_read, World.mem_acquire, h]
    cases hs : databaseSearchUser w.mem.users target with
    | none => simp [refuse, deref]
    | some j =>
      obtain ⟨t, ht⟩ := Table.exists_at hs
      simp only [reduceCtorEq, ↓reduceIte, run_bind,
        run_deref (show (w.acquire .userList).mem.users[j]? = some t from ht.get), bind_ret]
      split
      · simp [refuse, deref]
      · split
        · simp [refuse, deref]
        · simp [deref]

end NotFound

/-! ### The list -/

/-- What `server_side_user_exit` can do. -/
inductive Exits (m : Memory) (name : Bytes) : Memory → Prop
  | out {i : Nat} {u : User} (hrec : Record m.users name i u) (hin : u.inSession = .offline) : Exits m name (exited m i)
  | reserved {i : Nat} {u : User} (hrec : Record m.users name i u) (hin : u.inSession = .online)
      (hid : u.sessionId = notInSession) : Exits m name (exited (notified m) i)
  | leaving {i : Nat} {u : User} (hrec : Record m.users name i u) (hin : u.inSession = .online)
      (hid : u.sessionId ≠ notInSession) : Exits m name (exited (left m i u.sessionId.bytes) i)

/-- The messages that `connection_handler` knows. -/
def requests : List UInt32 :=
  [MsgType.login, MsgType.create, MsgType.exit, MsgType.join, MsgType.newSess, MsgType.leaveSess, MsgType.query,
    MsgType.sessQuery, MsgType.message, MsgType.kick, MsgType.promote]

/-- The replies to a request that change nothing. -/
inductive Answers : UInt32 → UInt32 → Prop
  | loNak : Answers MsgType.login MsgType.loNak
  | rgNak : Answers MsgType.create MsgType.rgNak
  | jnNak : Answers MsgType.join MsgType.jnNak
  | newSess : Answers MsgType.newSess MsgType.newSess
  | quAck : Answers MsgType.query MsgType.quAck
  | sqAck : Answers MsgType.sessQuery MsgType.sqAck
  | sqNak : Answers MsgType.sessQuery MsgType.sqNak
  | kiNak : Answers MsgType.kick MsgType.kiNak
  | pmNak : Answers MsgType.promote MsgType.pmNak

/-- What the dispatch of the message `received`, claiming to come from `claimed`, can do. -/
inductive Served (socketFd : Nat) (conn : Conn) (received : Message) (claimed : CStr maxName) (m : Memory) :
    Option Conn → Memory → Prop
  | answered {dest : Nat} {type : UInt32} {source : CStr maxName} {data : Option (CStr maxData)}
      (htype : Answers received.type type) (hsource : source = claimed ∨ source = conn.source)
      (hdest : dest = socketFd ∨ ∃ i u, Record m.users conn.source.bytes i u ∧ u.socketFd = dest) :
      Served socketFd conn received claimed m (some conn) (m.sent dest (wireOf type source data))
  | echoed {bytes : Bytes} (htype : received.type ∉ requests) :
      Served socketFd conn received claimed m (some conn) (m.sent socketFd bytes)
  | loggedIn {i : Nat} {u : User} (htype : received.type = MsgType.login) (hrec : Record m.users claimed.bytes i u)
      (hoff : u.status = .offline) :
      Served socketFd conn received claimed m (some ⟨claimed, .online⟩)
        ((m.setUsers (m.users.modify i (User.login .online socketFd))).sent socketFd
          (wireOf MsgType.loAck claimed none))
  | registered {password : CStr maxPasswordLength} (htype : received.type = MsgType.create)
      (hpw : password.bytes = cstr received.data.bytes) (hroom : m.users.length < maxUserCount)
      (hnew : databaseSearchUser m.users claimed.bytes = none) :
      Served socketFd conn received claimed m (some ⟨claimed, .online⟩)
        (((m.setUsers (m.users ++ [registeredUser claimed password socketFd])).appended
          (recordLine claimed.bytes password.bytes)).sent socketFd (wireOf MsgType.rgAck claimed none))
  | exited {m' : Memory} (htype : received.type = MsgType.exit) (h : Exits m conn.source.bytes m') :
      Served socketFd conn received claimed m none m'
  | created {i : Nat} {u : User} {sessionId : CStr maxData} {id : CStr maxSessionLength}
      (htype : received.type = MsgType.newSess) (hdata : received.data.text? = some sessionId)
      (hrec : Record m.users conn.source.bytes i u) (hid : sessionId.copy? maxSessionLength = some id)
      (hcount : countInSession m.users sessionId.bytes = 0) :
      Served socketFd conn received claimed m (some conn)
        ((m.setUsers (m.users.modify i (User.create id))).sent u.socketFd
          (wireOf MsgType.nsAck conn.source (some sessionId)))
  | joined {i : Nat} {u : User} {sessionId : CStr maxData} {id : CStr maxSessionLength}
      (htype : received.type = MsgType.join) (hdata : received.data.text? = some sessionId)
      (hrec : Record m.users conn.source.bytes i u) (hid : sessionId.copy? maxSessionLength = some id)
      (href : joinRefusal m.users u sessionId.bytes = none) :
      Served socketFd conn received claimed m (some conn)
        ((m.setUsers (m.users.modify i (User.join id))).sent u.socketFd
          (wireOf MsgType.jnAck conn.source (some sessionId)))
  | leftOut {i : Nat} {u : User} (htype : received.type = MsgType.leaveSess)
      (hrec : Record m.users conn.source.bytes i u) (hin : u.inSession = .offline) :
      Served socketFd conn received claimed m (some conn) m
  | leftReserved {i : Nat} {u : User} (htype : received.type = MsgType.leaveSess)
      (hrec : Record m.users conn.source.bytes i u) (hin : u.inSession = .online) (hid : u.sessionId = notInSession) :
      Served socketFd conn received claimed m (some conn) (notified m)
  | left {i : Nat} {u : User} (htype : received.type = MsgType.leaveSess)
      (hrec : Record m.users conn.source.bytes i u) (hin : u.inSession = .online) (hid : u.sessionId ≠ notInSession) :
      Served socketFd conn received claimed m (some conn) (Conferencing.left m i u.sessionId.bytes)
  | relayed {i : Nat} {u : User} {text : CStr maxData} (htype : received.type = MsgType.message)
      (hrec : Record m.users claimed.bytes i u)
      (hsize : received.size.toNat = text.bytes.length + 1 ∨ received.size = 0 ∧ text.bytes = []) :
      Served socketFd conn received claimed m (some conn)
        (m.sentAll (recipients m.users u.sessionId.bytes) (chatWire received.size claimed text))
  | kicked {i j : Nat} {u t : User} (htype : received.type = MsgType.kick)
      (hrec : Record m.users conn.source.bytes i u) (htarget : Record m.users (cstr received.data.bytes) j t)
      (href : refusal m.users (cstr received.data.bytes) u = none) :
      Served socketFd conn received claimed m (some conn) (Conferencing.kicked m i u j t conn.source)
  | promoted {i j : Nat} {u t : User} (htype : received.type = MsgType.promote)
      (hrec : Record m.users conn.source.bytes i u) (htarget : Record m.users (cstr received.data.bytes) j t)
      (href : refusal m.users (cstr received.data.bytes) u = none) :
      Served socketFd conn received claimed m (some conn) (Conferencing.promoted m i u j t conn.source)

/-! ### Every event is on the list -/

/-- A found name or none: the two cases of every handler. -/
theorem record_or_none (users : List User) (name : Bytes) :
    databaseSearchUser users name = none ∨ ∃ i u, Record users name i u := by
  cases h : databaseSearchUser users name with
  | none => exact Or.inl rfl
  | some i =>
    obtain ⟨u, hu⟩ := Table.exists_at h
    exact Or.inr ⟨i, u, hu⟩

theorem exit_yields (name : CStr maxName) (w : World Mutex Memory) :
    (serverSideUserExit name w).Yields w.mem fun _ m' => Exits w.mem name.bytes m' := by
  rcases record_or_none w.mem.users name.bytes with h | ⟨i, u, hrec⟩
  · rw [exit_notFound h]
    trivial
  · rw [run_serverSideUserExit hrec]
    split
    · rfl
    · split
      · exact .out hrec ‹_›
      · have hin : u.inSession = .online := by cases h : u.inSession <;> simp_all
        split
        · rfl
        · split
          · exact .reserved hrec hin ‹_›
          · exact .leaving hrec hin ‹_›

theorem serveDisconnect_yields (conn : Conn) (w : World Mutex Memory) :
    (serveDisconnect conn w).Yields w.mem fun r m' => r = none ∧
      (conn.serverConnectionStatus = .offline ∧ m' = w.mem ∨
        conn.serverConnectionStatus = .online ∧ Exits w.mem conn.source.bytes m') := by
  cases hst : conn.serverConnectionStatus with
  | offline => simp [serveDisconnect, hst, Outcome.Yields]
  | online =>
    simp only [serveDisconnect, hst, ↓reduceIte, run_bind]
    exact (exit_yields conn.source w).bind fun _ _ h => ⟨rfl, Or.inr ⟨trivial, h⟩⟩

section Dispatch

variable {socketFd : Nat} {conn : Conn} {received : Message} {claimed : CStr maxName} {w : World Mutex Memory}

private theorem join_yields (htype : received.type = MsgType.join) {sessionId : CStr maxData}
    (hdata : received.data.text? = some sessionId) :
    (serverSideSessionJoin conn.source sessionId w).Yields w.mem fun _ m' =>
      Served socketFd conn received claimed w.mem (some conn) m' := by
  rcases record_or_none w.mem.users conn.source.bytes with h | ⟨i, u, hrec⟩
  · rw [join_notFound h]
    split
    · rfl
    · split
      · rfl
      · trivial
  · rw [run_serverSideSessionJoin hrec]
    split
    · rfl
    · split
      · rfl
      · unfold joined
        split
        · exact .answered (htype ▸ .jnNak) (Or.inr rfl) (Or.inr ⟨i, u, hrec, rfl⟩)
        · cases hid : sessionId.copy? maxSessionLength with
          | none => trivial
          | some id => exact .joined htype hdata hrec hid ‹_›

private theorem create_yields (htype : received.type = MsgType.newSess) {sessionId : CStr maxData}
    (hdata : received.data.text? = some sessionId) :
    (serverSideSessionCreate conn.source sessionId w).Yields w.mem fun _ m' =>
      Served socketFd conn received claimed w.mem (some conn) m' := by
  rcases record_or_none w.mem.users conn.source.bytes with h | ⟨i, u, hrec⟩
  · rw [create_notFound h]
    split
    · rfl
    · split
      · rfl
      · trivial
  · rw [run_serverSideSessionCreate hrec]
    split
    · rfl
    · split
      · rfl
      · unfold created
        split
        · cases hid : sessionId.copy? maxSessionLength with
          | none => trivial
          | some id => exact .created htype hdata hrec hid ‹_›
        · exact .answered (htype ▸ .newSess) (Or.inr rfl) (Or.inr ⟨i, u, hrec, rfl⟩)

private theorem leave_yields (htype : received.type = MsgType.leaveSess) :
    (serverSideSessionLeave conn.source w).Yields w.mem fun _ m' =>
      Served socketFd conn received claimed w.mem (some conn) m' := by
  rcases record_or_none w.mem.users conn.source.bytes with h | ⟨i, u, hrec⟩
  · rw [leave_notFound h]
    split
    · rfl
    · trivial
  · rw [run_serverSideSessionLeave hrec]
    split
    · rfl
    · split
      · exact .leftOut htype hrec ‹_›
      · have hin : u.inSession = .online := by cases h : u.inSession <;> simp_all
        split
        · rfl
        · split
          · exact .leftReserved htype hrec hin ‹_›
          · exact .left htype hrec hin ‹_›

private theorem kick_yields (htype : received.type = MsgType.kick) :
    (serverSideKickUser conn.source (cstr received.data.bytes) w).Yields w.mem fun _ m' =>
      Served socketFd conn received claimed w.mem (some conn) m' := by
  rcases record_or_none w.mem.users conn.source.bytes with h | ⟨i, u, hrec⟩
  · rw [serverSideKickUser, withTarget_notFound h]
    split
    · rfl
    · trivial
  · cases href : refusal w.mem.users (cstr received.data.bytes) u with
    | some code =>
      rw [serverSideKickUser, run_withTarget (by decide) hrec, href]
      split
      · rfl
      · exact .answered (htype ▸ .kiNak) (Or.inr rfl) (Or.inr ⟨i, u, hrec, rfl⟩)
    | none =>
      obtain ⟨j, t, ht, -⟩ := refusal_eq_none href
      rw [run_serverSideKickUser hrec ht, href]
      split
      · rfl
      · exact .kicked htype hrec ht href

private theorem promote_yields (htype : received.type = MsgType.promote) :
    (serverSidePromoteUser conn.source (cstr received.data.bytes) w).Yields w.mem fun _ m' =>
      Served socketFd conn received claimed w.mem (some conn) m' := by
  rcases record_or_none w.mem.users conn.source.bytes with h | ⟨i, u, hrec⟩
  · rw [serverSidePromoteUser, withTarget_notFound h]
    split
    · rfl
    · trivial
  · cases href : refusal w.mem.users (cstr received.data.bytes) u with
    | some code =>
      rw [serverSidePromoteUser, run_withTarget (by decide) hrec, href]
      split
      · rfl
      · exact .answered (htype ▸ .pmNak) (Or.inr rfl) (Or.inr ⟨i, u, hrec, rfl⟩)
    | none =>
      obtain ⟨j, t, ht, -⟩ := refusal_eq_none href
      rw [run_serverSidePromoteUser hrec ht, href]
      split
      · rfl
      · exact .promoted htype hrec ht href

/-- A login is accepted, or refused with `LO_NAK`. -/
theorem verification_yields (htype : received.type = MsgType.login) (buffer : Bytes) :
    (dispatch socketFd conn buffer received claimed w).Yields w.mem fun r m' =>
      (∃ i u, Record w.mem.users claimed.bytes i u ∧ u.status = .offline ∧ w.held .userList = false ∧
        loginCode w.mem.users claimed.bytes (cstr received.data.bytes) = .successLogin ∧
        r = some ⟨claimed, .online⟩ ∧ m' = (w.mem.setUsers (w.mem.users.modify i (User.login .online socketFd))).sent socketFd
          (wireOf MsgType.loAck claimed none)) ∨
      r = some conn ∧ ∃ data, m' = w.mem.sent socketFd (wireOf MsgType.loNak claimed data) := by
  have hack := run_fillAndSend (show MsgType.loAck ≠ MsgType.message by decide)
  have hnak := run_fillAndSend (show MsgType.loNak ≠ MsgType.message by decide)
  simp only [dispatch, htype, ↓reduceIte, run_bind, run_verifyLogin, bind_ret]
  split
  · rename_i hcode
    obtain ⟨i, u, hrec, hoff, -⟩ := loginCode_success hcode
    simp only [run_bind, run_userLogin hrec]
    split
    · rfl
    · rename_i hul
      simp only [run_bind, bind_ret, hack, run_pure]
      exact Or.inl ⟨i, u, hrec, hoff, Bool.eq_false_iff.2 hul, hcode, rfl, rfl⟩
  · simp only [run_bind, hnak, bind_ret, run_pure]
    exact Or.inr ⟨rfl, _, rfl⟩

private theorem login_yields (htype : received.type = MsgType.login) (buffer : Bytes) :
    (dispatch socketFd conn buffer received claimed w).Yields w.mem
      (Served socketFd conn received claimed w.mem) := by
  refine (verification_yields htype buffer).mono fun r m' h => ?_
  rcases h with ⟨i, u, hrec, hoff, -, -, rfl, rfl⟩ | ⟨rfl, data, rfl⟩
  · exact .loggedIn htype hrec hoff
  · exact .answered (htype ▸ .loNak) (Or.inl rfl) (Or.inl rfl)

/-- A registration is accepted, or refused with `RG_NAK`. -/
theorem registration_yields (htype : received.type = MsgType.create) (buffer : Bytes) :
    (dispatch socketFd conn buffer received claimed w).Yields w.mem fun r m' =>
      (∃ password : CStr maxPasswordLength, password.bytes = cstr received.data.bytes ∧
        w.mem.users.length < maxUserCount ∧ databaseSearchUser w.mem.users claimed.bytes = none ∧
        w.held .userList = false ∧ w.held .rw = false ∧ r = some ⟨claimed, .online⟩ ∧
        m' = ((w.mem.setUsers (w.mem.users ++ [registeredUser claimed password socketFd])).appended
          (recordLine claimed.bytes password.bytes)).sent socketFd (wireOf MsgType.rgAck claimed none)) ∨
      r = some conn ∧ ∃ data, m' = w.mem.sent socketFd (wireOf MsgType.rgNak claimed data) := by
  have hne : ¬ MsgType.create = MsgType.login := by decide
  have hack := run_fillAndSend (show MsgType.rgAck ≠ MsgType.message by decide)
  have hnak := run_fillAndSend (show MsgType.rgNak ≠ MsgType.message by decide)
  simp only [dispatch, htype, hne, ↓reduceIte, run_bind, run_userRegistration]
  split
  · rfl
  · rename_i hul
    cases hpw : CStr.ofBytes? maxPasswordLength (cstr received.data.bytes) with
    | none => trivial
    | some password =>
      dsimp only
      split
      · rfl
      · rename_i hrw
        rcases registration_cases w.mem claimed password socketFd with ⟨hreg, hroom, hnew⟩ | ⟨hcode, hmem⟩
        · simp only [hreg, ↓reduceIte, run_bind, bind_ret, hack, run_pure]
          exact Or.inl ⟨password, CStr.ofBytes?_eq_some.1 hpw, hroom, hnew, Bool.eq_false_iff.2 hul,
            Bool.eq_false_iff.2 hrw, rfl, rfl⟩
        · simp only [hcode, hmem, ↓reduceIte, run_bind, bind_ret, hnak, run_pure]
          exact Or.inr ⟨rfl, _, rfl⟩

private theorem register_yields (htype : received.type = MsgType.create) (buffer : Bytes) :
    (dispatch socketFd conn buffer received claimed w).Yields w.mem
      (Served socketFd conn received claimed w.mem) := by
  refine (registration_yields htype buffer).mono fun r m' h => ?_
  rcases h with ⟨password, hpw, hroom, hnew, -, -, rfl, rfl⟩ | ⟨rfl, data, rfl⟩
  · exact .registered htype hpw hroom hnew
  · exact .answered (htype ▸ .rgNak) (Or.inl rfl) (Or.inl rfl)

theorem dispatch_query (htype : received.type = MsgType.query) (buffer : Bytes) :
    dispatch socketFd conn buffer received claimed w = (do
      let list ← getActiveUserListInDatabase
      let data ← checked (list.copy? maxData)
      fillAndSend socketFd MsgType.quAck claimed (some data)
      return some conn : Handler (Option Conn)) w := by
  simp only [dispatch, htype]
  rfl

/-- The list of online users is sent to the socket that asks. -/
theorem query_yields (htype : received.type = MsgType.query) (buffer : Bytes) :
    (dispatch socketFd conn buffer received claimed w).Yields w.mem fun r m' =>
      r = some conn ∧ ∃ data, m' = w.mem.sent socketFd (wireOf MsgType.quAck claimed data) := by
  have hack := run_fillAndSend (show MsgType.quAck ≠ MsgType.message by decide)
  simp only [dispatch_query htype, run_bind, run_getActiveUserListInDatabase]
  split
  · rfl
  · cases CStr.ofBytes? maximumBufferSize (activeUserText w.mem.users) with
    | none => trivial
    | some list =>
      cases hcopy : list.copy? maxData with
      | none => simp [hcopy, Outcome.Yields]
      | some data =>
        simp only [bind_ret, hcopy, run_bind, run_checked_some, hack, run_pure]
        exact ⟨rfl, _, rfl⟩

theorem dispatch_sessQuery (htype : received.type = MsgType.sessQuery) (buffer : Bytes) :
    dispatch socketFd conn buffer received claimed w = (do
      let data ← checked received.data.text?
      let list ← getActiveUserListInASession data.bytes
      match list with
      | none => fillAndSend socketFd MsgType.sqNak claimed (some (sessionResponseMessage .sessionNameInvalid))
      | some list =>
        let data ← checked (list.copy? maxData)
        fillAndSend socketFd MsgType.sqAck claimed (some data)
      return some conn : Handler (Option Conn)) w := by
  simp only [dispatch, htype]
  rfl

/-- The list of the users of a session, or the refusal, is sent to the socket that asks. -/
theorem sessQuery_yields (htype : received.type = MsgType.sessQuery) (buffer : Bytes) :
    (dispatch socketFd conn buffer received claimed w).Yields w.mem fun r m' =>
      r = some conn ∧ ∃ type data, (type = MsgType.sqAck ∨ type = MsgType.sqNak) ∧
        m' = w.mem.sent socketFd (wireOf type claimed data) := by
  have hack := run_fillAndSend (show MsgType.sqAck ≠ MsgType.message by decide)
  have hnak := run_fillAndSend (show MsgType.sqNak ≠ MsgType.message by decide)
  rw [dispatch_sessQuery htype]
  cases received.data.text? with
  | none => trivial
  | some data =>
    simp only [run_bind, run_checked_some, bind_ret, run_getActiveUserListInASession]
    split
    · rfl
    · split
      · simp only [bind_ret, run_bind, hnak, run_pure]
        exact ⟨rfl, _, _, Or.inr rfl, rfl⟩
      · cases CStr.ofBytes? maximumBufferSize (sessionUserText w.mem.users data.bytes) with
        | none => trivial
        | some list =>
          cases hcopy : list.copy? maxData with
          | none => simp [hcopy, Outcome.Yields]
          | some data =>
            simp only [bind_ret, hcopy, run_bind, run_checked_some, hack, run_pure]
            exact ⟨rfl, _, _, Or.inl rfl, rfl⟩

/-- A message of another type is sent back. -/
theorem echo_yields (htype : received.type ∉ requests) (buffer : Bytes) :
    (dispatch socketFd conn buffer received claimed w).Yields w.mem fun r m' =>
      r = some conn ∧ m' = w.mem.sent socketFd (cstr buffer) := by
  simp only [requests, List.mem_cons, List.not_mem_nil, or_false, not_or] at htype
  obtain ⟨h₁, h₂, h₃, h₄, h₅, h₆, h₇, h₈, h₉, h₁₀, h₁₁⟩ := htype
  simp only [dispatch, h₁, h₂, h₃, h₄, h₅, h₆, h₇, h₈, h₉, h₁₀, h₁₁, ↓reduceIte]
  split
  · exact ⟨rfl, rfl⟩
  · trivial

/-! ### The branches that act on the name of the connection -/

theorem dispatch_exit (htype : received.type = MsgType.exit) (buffer : Bytes) :
    dispatch socketFd conn buffer received claimed w = (serverSideUserExit conn.source w).bind fun _ => pure none := by
  simp only [dispatch, htype]
  rfl

private theorem dispatch_join (htype : received.type = MsgType.join) {sessionId : CStr maxData}
    (hdata : received.data.text? = some sessionId) (buffer : Bytes) :
    dispatch socketFd conn buffer received claimed w =
      (serverSideSessionJoin conn.source sessionId w).bind fun _ => pure (some conn) := by
  simp only [dispatch, htype, hdata]
  rfl

private theorem dispatch_create (htype : received.type = MsgType.newSess) {sessionId : CStr maxData}
    (hdata : received.data.text? = some sessionId) (buffer : Bytes) :
    dispatch socketFd conn buffer received claimed w =
      (serverSideSessionCreate conn.source sessionId w).bind fun _ => pure (some conn) := by
  simp only [dispatch, htype, hdata]
  rfl

/-- A session name that is not closed is printed all the same. -/
private theorem dispatch_unclosed (htype : received.type = MsgType.join ∨ received.type = MsgType.newSess)
    (hdata : received.data.text? = none) (buffer : Bytes) :
    dispatch socketFd conn buffer received claimed w = .fault := by
  rcases htype with htype | htype
  · simp only [dispatch, htype, hdata]
    rfl
  · simp only [dispatch, htype, hdata]
    rfl

theorem dispatch_leave (htype : received.type = MsgType.leaveSess) (buffer : Bytes) :
    dispatch socketFd conn buffer received claimed w =
      (serverSideSessionLeave conn.source w).bind fun _ => pure (some conn) := by
  simp only [dispatch, htype]
  rfl

private theorem dispatch_kick (htype : received.type = MsgType.kick) (buffer : Bytes) :
    dispatch socketFd conn buffer received claimed w =
      (serverSideKickUser conn.source (cstr received.data.bytes) w).bind fun _ => pure (some conn) := by
  simp only [dispatch, htype]
  rfl

private theorem dispatch_promote (htype : received.type = MsgType.promote) (buffer : Bytes) :
    dispatch socketFd conn buffer received claimed w =
      (serverSidePromoteUser conn.source (cstr received.data.bytes) w).bind fun _ => pure (some conn) := by
  simp only [dispatch, htype]
  rfl

/-! ### The branch that acts on the name in the message -/

/-- The size of a relayed chat message is that of its text, with the closing NUL. -/
theorem size_chatText (hsize : received.size.toNat ≤ maxData) :
    received.size.toNat = (chatText received.size received.data.bytes hsize).bytes.length + 1 ∨
      received.size = 0 ∧ (chatText received.size received.data.bytes hsize).bytes = [] := by
  obtain ⟨r, -, hchat⟩ := fillMessage_chat .zero hsize serverName
    (show received.size.toNat ≤ received.data.bytes.length by rw [received.data.size_eq]; exact hsize)
  exact hchat.size_text

private theorem dispatch_message (socketFd : Nat) (conn : Conn) (claimed : CStr maxName) (w : World Mutex Memory)
    (htype : received.type = MsgType.message) (hsize : received.size.toNat ≤ maxData) (buffer : Bytes) : ∃ r,
    IsChat r received.size claimed (chatText received.size received.data.bytes hsize) ∧
    dispatch socketFd conn buffer received claimed w = (do
      let sendingUser ← deref (returnUserByUsername w.mem.users claimed.bytes)
      sendMessageInASession r sendingUser.sessionId.bytes
      return some conn : Handler (Option Conn)) w := by
  obtain ⟨r, hfill, hchat⟩ := fillMessage_chat .zero hsize claimed
    (show received.size.toNat ≤ received.data.bytes.length by rw [received.data.size_eq]; exact hsize)
  refine ⟨r, hchat, ?_⟩
  have hbranch : dispatch socketFd conn buffer received claimed w = (do
      let replyMessage ← checked (fillMessage .zero MsgType.message received.size claimed.mem received.data.bytes)
      let p ← read fun m => returnUserByUsername m.users claimed.bytes
      let sendingUser ← deref p
      sendMessageInASession replyMessage sendingUser.sessionId.bytes
      return some conn : Handler (Option Conn)) w := by
    simp only [dispatch, htype]
    rfl
  simp only [hbranch, run_bind, hfill, run_checked_some, bind_ret, run_read]

/-- The name that a chat message claims to come from is looked up without a check. -/
theorem message_notFound (htype : received.type = MsgType.message) (hsize : received.size.toNat ≤ maxData)
    (buffer : Bytes) (h : databaseSearchUser w.mem.users claimed.bytes = none) :
    dispatch socketFd conn buffer received claimed w = .fault := by
  obtain ⟨r, -, hrun⟩ := dispatch_message socketFd conn claimed w htype hsize buffer
  have hfound : returnUserByUsername w.mem.users claimed.bytes = none := h
  rw [hrun, hfound]
  simp [deref]

/-- A chat message is relayed in the session of the name it claims to come from. -/
theorem message_found (htype : received.type = MsgType.message) (hsize : received.size.toNat ≤ maxData)
    (buffer : Bytes) {i : Nat} {u : User} (hrec : Record w.mem.users claimed.bytes i u) :
    dispatch socketFd conn buffer received claimed w =
      if w.held .userList then .blocked w
      else .ret (some conn) (w.setMem (w.mem.sentAll (recipients w.mem.users u.sessionId.bytes)
        (chatWire received.size claimed (chatText received.size received.data.bytes hsize)))) := by
  obtain ⟨r, hchat, hrun⟩ := dispatch_message socketFd conn claimed w htype hsize buffer
  have hfound : returnUserByUsername w.mem.users claimed.bytes = some i := hrec.found
  rw [hrun, hfound]
  simp only [run_bind, run_deref hrec.get, bind_ret, run_sendMessageInASession hchat]
  split <;> rfl

private theorem message_yields (htype : received.type = MsgType.message) (hsize : received.size.toNat ≤ maxData)
    (buffer : Bytes) : (dispatch socketFd conn buffer received claimed w).Yields w.mem
      (Served socketFd conn received claimed w.mem) := by
  rcases record_or_none w.mem.users claimed.bytes with h | ⟨i, u, hrec⟩
  · rw [message_notFound htype hsize buffer h]
    trivial
  · rw [message_found htype hsize buffer hrec]
    split
    · rfl
    · exact .relayed htype hrec (size_chatText hsize)

private theorem dispatch_yields (buffer : Bytes) (hsize : received.size.toNat ≤ maxData) :
    (dispatch socketFd conn buffer received claimed w).Yields w.mem
      (Served socketFd conn received claimed w.mem) := by
  by_cases hother : received.type ∉ requests
  · refine (echo_yields hother buffer).mono fun r m' h => ?_
    obtain ⟨rfl, rfl⟩ := h
    exact .echoed hother
  simp only [not_not, requests, List.mem_cons, List.not_mem_nil, or_false] at hother
  rcases hother with hlogin | hcreate | hexit | hjoin | hnew | hleave | hquery | hsess | hmessage | hkick | hpromote
  · exact login_yields hlogin buffer
  · exact register_yields hcreate buffer
  · rw [dispatch_exit hexit]
    exact (exit_yields conn.source w).bind fun _ _ h => .exited hexit h
  · cases hdata : received.data.text? with
    | none =>
      rw [dispatch_unclosed (Or.inl hjoin) hdata]
      trivial
    | some data =>
      rw [dispatch_join hjoin hdata]
      exact (join_yields hjoin hdata).bind fun _ _ h => h
  · cases hdata : received.data.text? with
    | none =>
      rw [dispatch_unclosed (Or.inr hnew) hdata]
      trivial
    | some data =>
      rw [dispatch_create hnew hdata]
      exact (create_yields hnew hdata).bind fun _ _ h => h
  · rw [dispatch_leave hleave]
    exact (leave_yields hleave).bind fun _ _ h => h
  · refine (query_yields hquery buffer).mono fun r m' h => ?_
    obtain ⟨rfl, data, rfl⟩ := h
    exact .answered (hquery ▸ .quAck) (Or.inl rfl) (Or.inl rfl)
  · refine (sessQuery_yields hsess buffer).mono fun r m' h => ?_
    obtain ⟨rfl, type, data, rfl | rfl, rfl⟩ := h
    · exact .answered (hsess ▸ .sqAck) (Or.inl rfl) (Or.inl rfl)
    · exact .answered (hsess ▸ .sqNak) (Or.inl rfl) (Or.inl rfl)
  · exact message_yields hmessage hsize buffer
  · rw [dispatch_kick hkick]
    exact (kick_yields hkick).bind fun _ _ h => h
  · rw [dispatch_promote hpromote]
    exact (promote_yields hpromote).bind fun _ _ h => h

end Dispatch

/-- Serving a chunk: the message it decodes to and one of the listed effects. -/
theorem serve_yields (socketFd : Nat) (conn : Conn) (chunk : Bytes) (w : World Mutex Memory) :
    (serve socketFd conn chunk w).Yields w.mem fun r m' => ∃ received claimed,
      decode (recvBuffer chunk) = some (received, claimed) ∧ Served socketFd conn received claimed w.mem r m' := by
  cases hdec : decode (recvBuffer chunk) with
  | none => simp [serve, hdec, Outcome.Yields]
  | some p =>
    obtain ⟨received, claimed⟩ := p
    simp only [serve, hdec, run_bind, run_checked_some, bind_ret]
    exact (dispatch_yields _ (decode_eq_some hdec).2.2).mono fun _ _ h => ⟨received, claimed, rfl, h⟩

/-! ### The dispatch of the session requests -/

section ServeType

variable {socketFd : Nat} {conn : Conn} {chunk : Bytes} {received : Message} {claimed : CStr maxName}
  {w : World Mutex Memory}

theorem serve_eq (hdec : decode (recvBuffer chunk) = some (received, claimed)) :
    serve socketFd conn chunk w = dispatch socketFd conn (recvBuffer chunk) received claimed w := by
  simp only [serve, hdec, run_bind, run_checked_some, bind_ret]

theorem serve_exit (hdec : decode (recvBuffer chunk) = some (received, claimed))
    (htype : received.type = MsgType.exit) :
    serve socketFd conn chunk w = (serverSideUserExit conn.source w).bind fun _ => pure none := by
  rw [serve_eq hdec, dispatch_exit htype]

theorem serve_join (hdec : decode (recvBuffer chunk) = some (received, claimed))
    (htype : received.type = MsgType.join) {sessionId : CStr maxData} (hdata : received.data.text? = some sessionId) :
    serve socketFd conn chunk w = (serverSideSessionJoin conn.source sessionId w).bind fun _ => pure (some conn) := by
  rw [serve_eq hdec, dispatch_join htype hdata]

theorem serve_create (hdec : decode (recvBuffer chunk) = some (received, claimed))
    (htype : received.type = MsgType.newSess) {sessionId : CStr maxData}
    (hdata : received.data.text? = some sessionId) :
    serve socketFd conn chunk w =
      (serverSideSessionCreate conn.source sessionId w).bind fun _ => pure (some conn) := by
  rw [serve_eq hdec, dispatch_create htype hdata]

theorem serve_unclosed (hdec : decode (recvBuffer chunk) = some (received, claimed))
    (htype : received.type = MsgType.join ∨ received.type = MsgType.newSess) (hdata : received.data.text? = none) :
    serve socketFd conn chunk w = .fault := by
  rw [serve_eq hdec, dispatch_unclosed htype hdata]

theorem serve_leave (hdec : decode (recvBuffer chunk) = some (received, claimed))
    (htype : received.type = MsgType.leaveSess) :
    serve socketFd conn chunk w = (serverSideSessionLeave conn.source w).bind fun _ => pure (some conn) := by
  rw [serve_eq hdec, dispatch_leave htype]

theorem serve_kick (hdec : decode (recvBuffer chunk) = some (received, claimed))
    (htype : received.type = MsgType.kick) :
    serve socketFd conn chunk w =
      (serverSideKickUser conn.source (cstr received.data.bytes) w).bind fun _ => pure (some conn) := by
  rw [serve_eq hdec, dispatch_kick htype]

theorem serve_promote (hdec : decode (recvBuffer chunk) = some (received, claimed))
    (htype : received.type = MsgType.promote) :
    serve socketFd conn chunk w =
      (serverSidePromoteUser conn.source (cstr received.data.bytes) w).bind fun _ => pure (some conn) := by
  rw [serve_eq hdec, dispatch_promote htype]

theorem serve_message {i : Nat} {u : User} (hdec : decode (recvBuffer chunk) = some (received, claimed))
    (htype : received.type = MsgType.message) (hsize : received.size.toNat ≤ maxData)
    (hrec : Record w.mem.users claimed.bytes i u) :
    serve socketFd conn chunk w =
      if w.held .userList then .blocked w
      else .ret (some conn) (w.setMem (w.mem.sentAll (recipients w.mem.users u.sessionId.bytes)
        (chatWire received.size claimed (chatText received.size received.data.bytes hsize)))) := by
  rw [serve_eq hdec, message_found htype hsize _ hrec]

end ServeType

end Conferencing
