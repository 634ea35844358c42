import NetLabs.Conferencing.Codec
import NetLabs.Conferencing.Server

/-!
# What the handlers do

For each handler the change it makes to the memory, as a pure function, and an equation that runs it from any world:
where it waits, with what held, and what it leaves when it returns.  The equations assume that the name the handler
looks up is in the table, as it is for a connection that is logged in.
-/

namespace Conferencing

open CText LockProg

/-- The record found under a name, and its position. -/
abbrev Record (users : List User) (name : Bytes) (i : Nat) (u : User) : Prop := Table.At User.name users name i u

/-- The bytes of a reply. -/
abbrev wireOf (type : UInt32) (source : CStr maxName) (data : Option (CStr maxData)) : Bytes :=
  wire type source (textOrEmpty data)

/-! ### Building blocks -/

section Blocks

variable {w : World Mutex Memory} {name : Bytes} {i : Nat} {u : User}

theorem run_fillAndSend {type : UInt32} (htype : type ≠ MsgType.message) (socketFd : Nat) (source : CStr maxName)
    (data : Option (CStr maxData)) (w : World Mutex Memory) :
    fillAndSend socketFd type source data w = .ret () (w.setMem (w.mem.sent socketFd (wireOf type source data))) := by
  simp [fillAndSend, fillAndSendMessage_eq htype]

theorem run_deref (h : w.mem.users[i]? = some u) : deref (some i) w = .ret u w := by
  simp [deref, h]

private theorem run_update (i : Nat) (f : User → User) (w : World Mutex Memory) :
    update (some i) f w = .ret () (w.setMem (w.mem.setUsers (w.mem.users.modify i f))) := by
  simp [update]

theorem run_getUserCountInASession (h : w.held .rw = false) (sessionId : Bytes) :
    getUserCountInASession sessionId w = .ret (countInSession w.mem.users sessionId) w := by
  simp [getUserCountInASession, run_lock h, World.release_acquire h]

theorem run_getUserCountInASession_held (h : w.held .rw = true) (sessionId : Bytes) :
    getUserCountInASession sessionId w = .blocked w := by
  simp [getUserCountInASession, run_lock_held h]

private theorem run_getUserCountInDatabase (h : w.held .rw = false) :
    getUserCountInDatabase w = .ret w.mem.users.length w := by
  simp [getUserCountInDatabase, run_lock h, World.release_acquire h]

private theorem run_setTheOnlyUserAdmin (h : w.held .rw = false) (sessionId : Bytes) :
    setTheOnlyUserAdmin sessionId w =
      .ret () (w.setMem (w.mem.setUsers (onlyUserAdmin w.mem.users sessionId))) := by
  have h' : (w.setMem (w.mem.setUsers (onlyUserAdmin w.mem.users sessionId))).held .rw = false := h
  simp [setTheOnlyUserAdmin, run_lock h, World.release_acquire h']

end Blocks

/-! ### Leaving -/

/-- The table after the user at `i` has left the session `sessionId`. -/
def leftTable (users : List User) (i : Nat) (sessionId : Bytes) : List User :=
  let users := users.modify i User.leave
  if countInSession users sessionId = 1 then onlyUserAdmin users sessionId else users

private theorem run_userExitCurrentSession {w : World Mutex Memory} {name : Bytes} {i : Nat} {u : User}
    (hrec : Record w.mem.users name i u) :
    userExitCurrentSession name w =
      if w.held .rw then .blocked w
      else if u.sessionId = notInSession then .ret () (w.acquire .rw)
      else .ret () (w.setMem (w.mem.setUsers (leftTable w.mem.users i u.sessionId.bytes))) := by
  have hfound : returnUserByUsername w.mem.users name = some i := hrec.found
  cases hrw : w.held .rw with
  | true => simp [userExitCurrentSession, run_lock_held hrw]
  | false =>
    simp only [userExitCurrentSession, run_bind, run_lock hrw, bind_ret, run_read, World.mem_acquire, hfound,
      run_deref (w := w.acquire .rw) hrec.get, Bool.false_eq_true, ↓reduceIte]
    by_cases hres : u.sessionId = notInSession
    · simp [hres]
    · have hrw' : (w.setMem (w.mem.setUsers (w.mem.users.modify i User.leave))).held .rw = false := hrw
      simp only [hres, ↓reduceIte, run_bind, run_update, World.mem_acquire, bind_ret, run_unlock,
        World.setMem_acquire, World.release_acquire hrw', run_getUserCountInASession hrw', World.mem_setMem,
        Memory.users_setUsers, leftTable]
      split
      · rw [run_setTheOnlyUserAdmin hrw']
        simp
      · simp

/-- The notices that `server_side_session_leave` sends to all administrators of the table. -/
def notified (m : Memory) : Memory :=
  m.sentAll (m.users.filter fun u => u.role = .admin) (wireOf MsgType.pmMessage serverName none)

/-- The user at `i`, in the session `sessionId`, leaves it. -/
def left (m : Memory) (i : Nat) (sessionId : Bytes) : Memory := notified (m.setUsers (leftTable m.users i sessionId))

theorem run_serverSideSessionLeave {w : World Mutex Memory} {name : CStr maxName} {i : Nat} {u : User}
    (hrec : Record w.mem.users name.bytes i u) :
    serverSideSessionLeave name w =
      if w.held .userList then .blocked w
      else if u.inSession = .offline then .ret () (w.acquire .userList)
      else if w.held .rw then .blocked (w.acquire .userList)
      else if u.sessionId = notInSession then .ret () ((w.setMem (notified w.mem)).acquire .rw)
      else .ret () (w.setMem (left w.mem i u.sessionId.bytes)) := by
  have hfound : databaseSearchUser w.mem.users name.bytes = some i := hrec.found
  cases hul : w.held .userList with
  | true => simp [serverSideSessionLeave, run_lock_held hul]
  | false =>
    have hrec' : Record (w.acquire .userList).mem.users name.bytes i u := hrec
    have hrw : (w.acquire .userList).held .rw = w.held .rw := w.held_acquire_of_ne (by decide)
    have hsend := fillAndSendMessage_eq (show MsgType.pmMessage ≠ MsgType.message by decide) serverName none
    simp only [serverSideSessionLeave, run_bind, run_lock hul, bind_ret, run_read, World.mem_acquire, hfound,
      run_deref hrec'.get, Bool.false_eq_true, ↓reduceIte]
    by_cases hin : u.inSession = .offline
    · simp [hin]
    · simp only [hin, ↓reduceIte, run_bind, run_userExitCurrentSession hrec', hrw, hsend]
      cases w.held .rw with
      | true => simp
      | false =>
        by_cases hres : u.sessionId = notInSession
        · simp [hres, notified, World.release_acquire_acquire, hul]
        · simp [hres, notified, left, World.release_acquire, hul]

/-- The user at `i` exits, after what `server_side_session_leave` did. -/
def exited (m : Memory) (i : Nat) : Memory := m.setUsers (m.users.modify i User.exit)

theorem run_serverSideUserExit {w : World Mutex Memory} {name : CStr maxName} {i : Nat} {u : User}
    (hrec : Record w.mem.users name.bytes i u) :
    serverSideUserExit name w =
      if w.held .userList then .blocked w
      else if u.inSession = .offline then .ret () (w.setMem (exited w.mem i))
      else if w.held .rw then .blocked (w.acquire .userList)
      else if u.sessionId = notInSession then .ret () ((w.setMem (exited (notified w.mem) i)).acquire .rw)
      else .ret () (w.setMem (exited (left w.mem i u.sessionId.bytes) i)) := by
  have hfound : databaseSearchUser w.mem.users name.bytes = some i := hrec.found
  simp only [serverSideUserExit, run_bind, run_read, bind_ret, hfound, run_deref hrec.get]
  have htail : ∀ w' : World Mutex Memory, w'.held .userList = false →
      (lock .userList >>= fun _ => update (some i) User.exit >>= fun _ => unlock .userList : Handler Unit) w' =
        .ret () (w'.setMem (exited w'.mem i)) := by
    intro w' hul
    simp [run_lock hul, run_update, World.release_acquire, hul, exited]
  cases hin : u.inSession with
  | offline =>
    simp only [reduceCtorEq, ↓reduceIte]
    cases hul : w.held .userList with
    | true => simp [run_lock_held hul]
    | false => simpa using htail w hul
  | online =>
    simp only [reduceCtorEq, ↓reduceIte, run_bind, run_serverSideSessionLeave hrec, hin]
    cases hul : w.held .userList with
    | true => simp
    | false =>
      cases w.held .rw with
      | true => simp
      | false =>
        by_cases hres : u.sessionId = notInSession
        · have hul' : ((w.setMem (notified w.mem)).acquire .rw).held .userList = false := by
            simpa using hul
          simpa [hres] using htail _ hul'
        · have hul' : (w.setMem (left w.mem i u.sessionId.bytes)).held .userList = false := hul
          simpa [hres] using htail _ hul'

/-! ### Creating and joining -/

/-- `server_side_session_create` for the record `u` at `i`; `none` when the name does not fit the record. -/
def created (m : Memory) (i : Nat) (u : User) (username : CStr maxName) (sessionId : CStr maxData) : Option Memory :=
  if countInSession m.users sessionId.bytes = 0 then
    (sessionId.copy? maxSessionLength).map fun id =>
      (m.setUsers (m.users.modify i (User.create id))).sent u.socketFd
        (wireOf MsgType.nsAck username (some sessionId))
  else some (m.sent u.socketFd (wireOf MsgType.newSess username (some (sessionResponseMessage .sessionExists))))

theorem run_serverSideSessionCreate {w : World Mutex Memory} {name : CStr maxName} {i : Nat} {u : User}
    (hrec : Record w.mem.users name.bytes i u) (sessionId : CStr maxData) :
    serverSideSessionCreate name sessionId w =
      if w.held .userList then .blocked w
      else if w.held .rw then .blocked (w.acquire .userList)
      else finish (created w.mem i u name sessionId) w := by
  have hfound : databaseSearchUser w.mem.users name.bytes = some i := hrec.found
  cases hul : w.held .userList with
  | true => simp [serverSideSessionCreate, run_lock_held hul]
  | false =>
    have hheld : (w.acquire .userList).held .rw = w.held .rw := w.held_acquire_of_ne (by decide)
    cases hrw : w.held .rw with
    | true =>
      simp [serverSideSessionCreate, run_lock hul, run_getUserCountInASession_held (hheld.trans hrw)]
    | false =>
      simp only [serverSideSessionCreate, run_bind, run_lock hul, bind_ret, run_read, World.mem_acquire, hfound,
        run_getUserCountInASession (hheld.trans hrw), Bool.false_eq_true, ↓reduceIte, created]
      by_cases hcount : countInSession w.mem.users sessionId.bytes = 0
      · simp only [hcount, ↓reduceIte, run_bind]
        cases sessionId.copy? maxSessionLength with
        | none => simp
        | some id =>
          have hget : (w.mem.users.modify i (User.create id))[i]? = some (u.create id) := by
            rw [List.getElem?_modify_eq, hrec.get]
            rfl
          have hsend := run_fillAndSend (show MsgType.nsAck ≠ MsgType.message by decide)
          simp [run_update, deref, hget, hsend, World.release_acquire, hul, User.create]
      · have hsend := run_fillAndSend (show MsgType.newSess ≠ MsgType.message by decide)
        simp [hcount, deref, hrec.get, hsend, World.release_acquire, hul]

/-- The three refusals of `server_side_session_join`. -/
def joinRefusal (users : List User) (u : User) (sessionId : Bytes) : Option SessionCode :=
  if u.inSession = .online then some .userNameInSession
  else if countInSession users sessionId = 0 then some .sessionNameInvalid
  else if countInSession users sessionId = maxSessionUser then some .sessionAtFullCapacity
  else none

theorem joinRefusal_eq_none {users : List User} {u : User} {sessionId : Bytes}
    (h : joinRefusal users u sessionId = none) : u.inSession = .offline ∧ countInSession users sessionId ≠ 0 := by
  unfold joinRefusal at h
  by_cases hin : u.inSession = .online
  · simp [hin] at h
  · by_cases h0 : countInSession users sessionId = 0
    · simp [hin, h0] at h
    · refine ⟨?_, h0⟩
      cases hs : u.inSession <;> simp_all

/-- `server_side_session_join` for the record `u` at `i`. -/
def joined (m : Memory) (i : Nat) (u : User) (username : CStr maxName) (sessionId : CStr maxData) : Option Memory :=
  match joinRefusal m.users u sessionId.bytes with
  | some code => some (m.sent u.socketFd (wireOf MsgType.jnNak username (some (sessionResponseMessage code))))
  | none =>
    (sessionId.copy? maxSessionLength).map fun id =>
      (m.setUsers (m.users.modify i (User.join id))).sent u.socketFd
        (wireOf MsgType.jnAck username (some sessionId))

theorem run_serverSideSessionJoin {w : World Mutex Memory} {name : CStr maxName} {i : Nat} {u : User}
    (hrec : Record w.mem.users name.bytes i u) (sessionId : CStr maxData) :
    serverSideSessionJoin name sessionId w =
      if w.held .userList then .blocked w
      else if w.held .rw then .blocked (w.acquire .userList)
      else finish (joined w.mem i u name sessionId) w := by
  have hfound : databaseSearchUser w.mem.users name.bytes = some i := hrec.found
  cases hul : w.held .userList with
  | true => simp [serverSideSessionJoin, run_lock_held hul]
  | false =>
    have hheld : (w.acquire .userList).held .rw = w.held .rw := w.held_acquire_of_ne (by decide)
    cases hrw : w.held .rw with
    | true =>
      simp [serverSideSessionJoin, run_lock hul, run_getUserCountInASession_held (hheld.trans hrw)]
    | false =>
      have hnak := run_fillAndSend (show MsgType.jnNak ≠ MsgType.message by decide)
      have hack := run_fillAndSend (show MsgType.jnAck ≠ MsgType.message by decide)
      simp only [serverSideSessionJoin, run_bind, run_lock hul, bind_ret, run_read, World.mem_acquire, hfound,
        run_getUserCountInASession (hheld.trans hrw), Bool.false_eq_true, ↓reduceIte,
        run_deref (show (w.acquire .userList).mem.users[i]? = some u from hrec.get), joined, joinRefusal]
      by_cases hin : u.inSession = .online
      · simp [hin, hnak, World.release_acquire, hul]
      · by_cases h0 : countInSession w.mem.users sessionId.bytes = 0
        · simp [hin, h0, hnak, World.release_acquire, hul]
        · by_cases hfull : countInSession w.mem.users sessionId.bytes = maxSessionUser
          · simp [hin, hfull, hnak, World.release_acquire, hul]
          · simp only [hin, h0, hfull, ↓reduceIte, run_bind]
            cases sessionId.copy? maxSessionLength with
            | none => simp
            | some id => simp [run_update, hack, World.release_acquire, hul]

/-! ### Kicking and promoting -/

/-- The five refusals of `server_side_kick_user` and `server_side_promote_user`, for the sender's record `own`. -/
def refusal (users : List User) (target : Bytes) (own : User) : Option SessionCode :=
  match (databaseSearchUser users target).bind (users[·]?) with
  | none => some .userDoesNotExist
  | some user =>
    if user.status = .offline then some .userNotOnline
    else if user.inSession = .offline then some .userNotInSession
    else if user.sessionId ≠ own.sessionId then some .userInDifferentSession
    else if user.role = .admin then some .targetIsAdmin
    else none

/-- A request that is not refused has a target: in the sender's session, online, and no administrator. -/
theorem refusal_eq_none {users : List User} {target : Bytes} {own : User} (h : refusal users target own = none) :
    ∃ j t, Record users target j t ∧ t.status = .online ∧ t.inSession = .online ∧ t.sessionId = own.sessionId ∧
      t.role = .user := by
  unfold refusal at h
  cases hs : databaseSearchUser users target with
  | none => simp [hs] at h
  | some j =>
    obtain ⟨t, ht⟩ := Table.exists_at hs
    simp only [hs, Option.bind_some, ht.get] at h
    by_cases hst : t.status = .offline
    · simp [hst] at h
    · by_cases hin : t.inSession = .offline
      · simp [hst, hin] at h
      · by_cases hid : t.sessionId = own.sessionId
        · by_cases hrole : t.role = .admin
          · simp [hst, hin, hid, hrole] at h
          · refine ⟨j, t, ht, ?_, ?_, hid, ?_⟩
            · cases hs' : t.status <;> simp_all
            · cases hs' : t.inSession <;> simp_all
            · cases hs' : t.role <;> simp_all
        · simp [hst, hin, hid] at h

private theorem run_refuse {w : World Mutex Memory} {nak : UInt32} (hnak : nak ≠ MsgType.message) {i : Nat} {u : User}
    (hget : w.mem.users[i]? = some u) (hul : w.held .userList = false) (sender : CStr maxName) (code : SessionCode) :
    refuse nak sender (some i) code (w.acquire .userList) =
      .ret () (w.setMem (w.mem.sent u.socketFd (wireOf nak sender (some (sessionResponseMessage code))))) := by
  have hget' : (w.acquire Mutex.userList).mem.users[i]? = some u := hget
  simp [refuse, run_deref hget', run_fillAndSend hnak, World.release_acquire, hul]

theorem run_withTarget {w : World Mutex Memory} {nak : UInt32} (hnak : nak ≠ MsgType.message)
    {sender : CStr maxName} {i : Nat} {u : User} (hrec : Record w.mem.users sender.bytes i u) (target : Bytes)
    (grant : Option Nat → Option Nat → Handler Unit) :
    withTarget nak sender target grant w =
      if w.held .userList then .blocked w
      else match refusal w.mem.users target u with
        | some code => .ret () (w.setMem (w.mem.sent u.socketFd
            (wireOf nak sender (some (sessionResponseMessage code)))))
        | none => grant (databaseSearchUser w.mem.users target) (some i) (w.acquire .userList) := by
  have hfound : databaseSearchUser w.mem.users sender.bytes = some i := hrec.found
  cases hul : w.held .userList with
  | true => simp [withTarget, run_lock_held hul]
  | false =>
    have hrefuse := run_refuse hnak hrec.get hul sender
    simp only [withTarget, run_bind, run_lock hul, bind_ret, run_read, World.mem_acquire, hfound, refusal,
      Bool.false_eq_true, ↓reduceIte]
    cases hs : databaseSearchUser w.mem.users target with
    | none => simp [hrefuse]
    | some j =>
      obtain ⟨t, ht⟩ := Table.exists_at hs
      have hderef := run_deref (show (w.acquire .userList).mem.users[j]? = some t from ht.get)
      have hown := run_deref (show (w.acquire .userList).mem.users[i]? = some u from hrec.get)
      simp only [reduceCtorEq, ↓reduceIte, run_bind, hderef, bind_ret, Option.bind_some, ht.get]
      by_cases hst : t.status = .offline
      · simp [hst, hrefuse]
      · by_cases hin : t.inSession = .offline
        · simp [hst, hin, hrefuse]
        · simp only [hst, hin, ↓reduceIte, run_bind, hown, bind_ret]
          by_cases hid : t.sessionId = u.sessionId
          · by_cases hrole : t.role = .admin
            · simp [hid, hrole, hrefuse]
            · simp [hid, hrole]
          · simp [hid, hrefuse]

/-- `server_side_kick_user`, granted, for the sender's record `u` at `i` and the target's `t` at `j`. -/
def kicked (m : Memory) (i : Nat) (u : User) (j : Nat) (t : User) (sender : CStr maxName) : Memory :=
  let sessionId := if i = j then notInSession else u.sessionId
  ((m.setUsers (m.users.modify j User.kick)).sent t.socketFd
    (wireOf MsgType.kiMessage serverName (some (sessionId.widen maxSessionLength_le)))).sent u.socketFd
    (wireOf MsgType.kiAck sender (some (t.username.widen maxName_le)))

theorem run_serverSideKickUser {w : World Mutex Memory} {sender : CStr maxName} {i j : Nat} {u t : User}
    {target : Bytes} (hrec : Record w.mem.users sender.bytes i u) (ht : Record w.mem.users target j t) :
    serverSideKickUser sender target w =
      if w.held .userList then .blocked w
      else match refusal w.mem.users target u with
        | some code => .ret () (w.setMem (w.mem.sent u.socketFd
            (wireOf MsgType.kiNak sender (some (sessionResponseMessage code)))))
        | none => .ret () (w.setMem (kicked w.mem i u j t sender)) := by
  have hfound : databaseSearchUser w.mem.users target = some j := ht.found
  rw [serverSideKickUser, run_withTarget (by decide) hrec]
  cases hul : w.held .userList with
  | true => rfl
  | false =>
    simp only [Bool.false_eq_true, ↓reduceIte, hfound]
    cases refusal w.mem.users target u with
    | some code => rfl
    | none =>
      have hmsg := run_fillAndSend (show MsgType.kiMessage ≠ MsgType.message by decide)
      have hack := run_fillAndSend (show MsgType.kiAck ≠ MsgType.message by decide)
      have htget : (w.mem.users.modify j User.kick)[j]? = some t.kick := by
        rw [List.getElem?_modify_eq, ht.get]
        rfl
      by_cases hij : i = j
      · have heq : u = t := by
          have := hrec.get.symm.trans (hij ▸ ht.get)
          simpa using this
        subst hij heq
        simp [run_update, deref, htget, hmsg, hack, kicked, User.kick, World.release_acquire, hul]
      · have hget : (w.mem.users.modify j User.kick)[i]? = some u := by
          rw [List.getElem?_modify_ne _ _ (Ne.symm hij), hrec.get]
        simp [run_update, deref, htget, hget, hmsg, hack, kicked, hij, User.kick, World.release_acquire, hul]

/-- `server_side_promote_user`, granted. -/
def promoted (m : Memory) (i : Nat) (u : User) (j : Nat) (t : User) (sender : CStr maxName) : Memory :=
  ((m.setUsers ((m.users.modify j (User.setRole .admin)).modify i (User.setRole .user))).sent t.socketFd
    (wireOf MsgType.pmMessage serverName none)).sent u.socketFd
    (wireOf MsgType.pmAck sender (some (t.username.widen maxName_le)))

theorem run_serverSidePromoteUser {w : World Mutex Memory} {sender : CStr maxName} {i j : Nat} {u t : User}
    {target : Bytes} (hrec : Record w.mem.users sender.bytes i u) (ht : Record w.mem.users target j t) :
    serverSidePromoteUser sender target w =
      if w.held .userList then .blocked w
      else match refusal w.mem.users target u with
        | some code => .ret () (w.setMem (w.mem.sent u.socketFd
            (wireOf MsgType.pmNak sender (some (sessionResponseMessage code)))))
        | none => .ret () (w.setMem (promoted w.mem i u j t sender)) := by
  have hfound : databaseSearchUser w.mem.users target = some j := ht.found
  rw [serverSidePromoteUser, run_withTarget (by decide) hrec]
  cases hul : w.held .userList with
  | true => rfl
  | false =>
    simp only [Bool.false_eq_true, ↓reduceIte, hfound]
    cases refusal w.mem.users target u with
    | some code => rfl
    | none =>
      have hmsg := run_fillAndSend (show MsgType.pmMessage ≠ MsgType.message by decide)
      have hack := run_fillAndSend (show MsgType.pmAck ≠ MsgType.message by decide)
      have hown : ∃ u', ((w.mem.users.modify j (User.setRole .admin)).modify i (User.setRole .user))[i]? = some u' ∧
          u'.socketFd = u.socketFd := by
        rw [List.getElem?_modify_eq, List.getElem?_modify, hrec.get]
        refine ⟨_, rfl, ?_⟩
        split <;> rfl
      have htarget : ∃ t', ((w.mem.users.modify j (User.setRole .admin)).modify i (User.setRole .user))[j]? = some t' ∧
          t'.socketFd = t.socketFd ∧ t'.username = t.username := by
        rw [List.getElem?_modify, List.getElem?_modify_eq, ht.get]
        refine ⟨_, rfl, ?_⟩
        split <;> exact ⟨rfl, rfl⟩
      obtain ⟨u', hu', hfd⟩ := hown
      obtain ⟨t', ht', htfd, htname⟩ := htarget
      simp [run_update, deref, hu', ht', hmsg, hack, promoted, hfd, htfd, htname, World.release_acquire, hul]

/-! ### Chatting, logging in, registering, listing -/

theorem run_sendMessageInASession {w : World Mutex Memory} {msg : Message} {n : UInt32} {source : CStr maxName}
    {text : CStr maxData} (hmsg : IsChat msg n source text) (sessionId : Bytes) :
    sendMessageInASession msg sessionId w =
      if w.held .userList then .blocked w
      else .ret () (w.setMem (w.mem.sentAll (recipients w.mem.users sessionId) (chatWire n source text))) := by
  cases hul : w.held .userList with
  | true => simp [sendMessageInASession, run_lock_held hul]
  | false =>
    obtain ⟨out, count, hprint, hcstr⟩ := hmsg.messageToString (CArray.zero accBufferSize) (by decide)
    simp [sendMessageInASession, run_lock hul, hprint, hcstr, World.release_acquire, hul]

/-- The result of `verify_login`. -/
def loginCode (users : List User) (username password : Bytes) : LoginCode :=
  match (databaseSearchUser users username).bind (users[·]?) with
  | none => .usernameError
  | some user =>
    if user.password.bytes = password then
      if user.status = .online then .alreadyLogin else .successLogin
    else .passwordError

/-- The account of a record that is offline can be logged in. -/
theorem loginCode_offline {users : List User} {name : Bytes} {i : Nat} {u : User} (hrec : Record users name i u)
    (hoff : u.status = .offline) : loginCode users name u.password.bytes = .successLogin := by
  have hfound : databaseSearchUser users name = some i := hrec.found
  simp [loginCode, hfound, hrec.get, hoff]

theorem run_verifyLogin (username password : Bytes) (w : World Mutex Memory) :
    verifyLogin username password w = .ret (loginCode w.mem.users username password) w := by
  simp only [verifyLogin, run_bind, run_read, bind_ret, loginCode]
  cases hs : databaseSearchUser w.mem.users username with
  | none => simp
  | some i =>
    obtain ⟨u, hu⟩ := Table.exists_at hs
    simp only [reduceCtorEq, ↓reduceIte, run_bind, run_deref hu.get, bind_ret, Option.bind_some, hu.get]
    split
    · split <;> rfl
    · rfl

/-- A login that is accepted is one of an account that is offline. -/
theorem loginCode_success {users : List User} {username password : Bytes}
    (h : loginCode users username password = .successLogin) :
    ∃ i u, Record users username i u ∧ u.status = .offline ∧ u.password.bytes = password := by
  unfold loginCode at h
  cases hs : databaseSearchUser users username with
  | none => simp [hs] at h
  | some i =>
    obtain ⟨u, hu⟩ := Table.exists_at hs
    simp only [hs, Option.bind_some, hu.get] at h
    refine ⟨i, u, hu, ?_⟩
    by_cases hpw : u.password.bytes = password
    · cases hst : u.status with
      | offline => exact ⟨rfl, hpw⟩
      | online => simp [hpw, hst] at h
    · simp [hpw] at h

theorem run_userLogin {w : World Mutex Memory} {name : Bytes} {i : Nat} {u : User}
    (hrec : Record w.mem.users name i u) (status : Status) (socketFd : Nat) :
    userLogin name status socketFd w =
      if w.held .userList then .blocked w
      else .ret () (w.setMem (w.mem.setUsers (w.mem.users.modify i (User.login status socketFd)))) := by
  have hfound : databaseSearchUser w.mem.users name = some i := hrec.found
  cases hul : w.held .userList with
  | true => simp [userLogin, run_lock_held hul]
  | false => simp [userLogin, run_lock hul, hfound, run_update, World.release_acquire, hul]

/-- `user_registration` of an account whose password fits its field. -/
def registration (m : Memory) (username : CStr maxName) (password : CStr maxPasswordLength) (socketFd : Nat) :
    AddUserCode × Memory :=
  let r := addUser m.users (registeredUser username password socketFd)
  if r.1 = .addUserSuccess then
    (r.1, (m.setUsers r.2).appended (recordLine username.bytes password.bytes))
  else (r.1, m)

/-- A registration appends a record and a line, or does nothing. -/
theorem registration_cases (m : Memory) (username : CStr maxName) (password : CStr maxPasswordLength)
    (socketFd : Nat) :
    registration m username password socketFd = (.addUserSuccess,
        (m.setUsers (m.users ++ [registeredUser username password socketFd])).appended
          (recordLine username.bytes password.bytes)) ∧
      m.users.length < maxUserCount ∧ databaseSearchUser m.users username.bytes = none ∨
    (registration m username password socketFd).1 ≠ .addUserSuccess ∧
      (registration m username password socketFd).2 = m := by
  by_cases hfull : m.users.length ≥ maxUserCount
  · right
    simp [registration, addUser, hfull]
  · by_cases hdup : databaseSearchUser m.users username.bytes = none
    · left
      have hdup' : databaseSearchUser m.users (registeredUser username password socketFd).username.bytes = none := hdup
      refine ⟨?_, Nat.lt_of_not_le hfull, hdup⟩
      simp only [registration, addUser, hfull, hdup', ↓reduceIte, ne_eq, not_true_eq_false]
      rfl
    · right
      have hdup' : databaseSearchUser m.users (registeredUser username password socketFd).username.bytes ≠ none := hdup
      simp [registration, addUser, hfull, hdup']

theorem run_userRegistration {w : World Mutex Memory} (username : CStr maxName) (password : Bytes) (socketFd : Nat) :
    userRegistration username password socketFd w =
      if w.held .userList then .blocked w
      else match CStr.ofBytes? maxPasswordLength password with
        | none => .fault
        | some password =>
          if w.held .rw then .blocked (w.acquire .userList)
          else .ret (registration w.mem username password socketFd).1
            (w.setMem (registration w.mem username password socketFd).2) := by
  cases hul : w.held .userList with
  | true => simp [userRegistration, run_lock_held hul]
  | false =>
    have hheld : (w.acquire .userList).held .rw = w.held .rw := w.held_acquire_of_ne (by decide)
    simp only [userRegistration, run_bind, run_lock hul, bind_ret, Bool.false_eq_true, ↓reduceIte]
    cases CStr.ofBytes? maxPasswordLength password with
    | none => simp
    | some password =>
      simp only [run_checked_some, bind_ret]
      cases hrw : w.held .rw with
      | true =>
        simp [userDatabaseAddUser, getUserCountInDatabase, run_lock_held (hheld.trans hrw)]
      | false =>
        simp only [run_bind, run_userDatabaseAddUser (hheld.trans hrw), bind_ret, World.mem_acquire,
          registration, addUser, Bool.false_eq_true, ↓reduceIte]
        by_cases hfull : w.mem.users.length ≥ maxUserCount
        · simp [hfull, World.release_acquire, hul]
        · by_cases hdup : databaseSearchUser w.mem.users (registeredUser username password socketFd).username.bytes = none
          · simp only [hfull, hdup, ↓reduceIte, ne_eq, not_true_eq_false]
            simp [run_getUserCountInDatabase, writeToDatabase, deref, World.release_acquire, hul, hrw, createUser,
              registeredUser]
          · simp [hfull, hdup, World.release_acquire, hul]

theorem run_getActiveUserListInDatabase (w : World Mutex Memory) :
    getActiveUserListInDatabase w =
      if w.held .rw then .blocked w
      else match CStr.ofBytes? maximumBufferSize (activeUserText w.mem.users) with
        | none => .fault
        | some list => .ret list w := by
  cases hrw : w.held .rw with
  | true => simp [getActiveUserListInDatabase, run_lock_held hrw]
  | false =>
    simp only [getActiveUserListInDatabase, run_bind, run_lock hrw, bind_ret, run_read, World.mem_acquire,
      Bool.false_eq_true, ↓reduceIte]
    cases CStr.ofBytes? maximumBufferSize (activeUserText w.mem.users) with
    | none => simp
    | some list => simp [World.release_acquire, hrw]

theorem run_getActiveUserListInASession (sessionId : Bytes) (w : World Mutex Memory) :
    getActiveUserListInASession sessionId w =
      if w.held .rw then .blocked w
      else if countInSession w.mem.users sessionId = 0 then .ret none w
      else match CStr.ofBytes? maximumBufferSize (sessionUserText w.mem.users sessionId) with
        | none => .fault
        | some list => .ret (some list) w := by
  cases hrw : w.held .rw with
  | true => simp [getActiveUserListInASession, run_getUserCountInASession_held hrw]
  | false =>
    simp only [getActiveUserListInASession, run_bind, run_getUserCountInASession hrw, bind_ret, Bool.false_eq_true,
      ↓reduceIte]
    by_cases h0 : countInSession w.mem.users sessionId = 0
    · simp [h0]
    · simp only [h0, ↓reduceIte, run_bind, run_lock hrw, bind_ret, run_read, World.mem_acquire]
      cases CStr.ofBytes? maximumBufferSize (sessionUserText w.mem.users sessionId) with
      | none => simp
      | some list => simp [World.release_acquire, hrw]

end Conferencing
