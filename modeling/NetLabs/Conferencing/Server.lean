import NetLabs.Conferencing.Database
import NetLabs.Lib.Transition

/-!
# The conferencing server (`server/server.c`)

The handlers of the requests, the dispatch of `connection_handler`, and the server as a transition system.  One event
is one turn of a connection's loop: a `recv` and the request it decodes to, served to its end, or the end of the
connection.  A handler that waits for a mutex leaves its connection stuck and everything it holds held.

`clear`ed at each event, the outbox holds what the handlers sent during the event; a `send` to the socket `OFFLINE`
reaches nobody.  Printing, the addresses of users and the limit on threads are left out.
-/

namespace Conferencing

open CText LockProg Transition

/-! ### Replies -/

/-- `"server"`. -/
def serverName : CStr maxName := ⟨ascii "server", by decide, by decide⟩

/-- The results of `verify_login` (`LIST_EMPTY` needs a server without a table). -/
inductive LoginCode
  | usernameError
  | passwordError
  | alreadyLogin
  | successLogin
  deriving DecidableEq

/-- `select_login_message`. -/
def selectLoginMessage : LoginCode → Option (CStr maxData)
  | .usernameError => some ⟨ascii "Your username does not appear to be valid.", by decide, by decide⟩
  | .passwordError => some ⟨ascii "Your password is incorrect.", by decide, by decide⟩
  | .alreadyLogin => some ⟨ascii
      "You have logged in elsewhere.\n Please log out of the other session before proceeding.", by decide, by decide⟩
  | .successLogin => none

/-- The codes of `session_response_message`. -/
inductive SessionCode
  | sessionNameInvalid
  | sessionAtFullCapacity
  | sessionExists
  | userNameInSession
  | userDoesNotExist
  | userNotInSession
  | userNotOnline
  | userInDifferentSession
  | targetIsAdmin
  deriving DecidableEq

/-- `session_response_message`. -/
def sessionResponseMessage : SessionCode → CStr maxData
  | .sessionNameInvalid => ⟨ascii "Session name is not found!.", by decide, by decide⟩
  | .sessionAtFullCapacity => ⟨ascii "Session you tried to join was full!.", by decide, by decide⟩
  | .sessionExists => ⟨ascii "Session already exists!.", by decide, by decide⟩
  | .userNameInSession =>
    ⟨ascii "Please leave the session before joining/creating another one!.", by decide, by decide⟩
  | .userDoesNotExist => ⟨ascii "User does not exist!.", by decide, by decide⟩
  | .userNotInSession => ⟨ascii "User is not in a session!.", by decide, by decide⟩
  | .userNotOnline => ⟨ascii "User is not online!.", by decide, by decide⟩
  | .userInDifferentSession => ⟨ascii "User is in a different session!.", by decide, by decide⟩
  | .targetIsAdmin => ⟨ascii "Target User is an admin.", by decide, by decide⟩

/-- `user_registration_message`. -/
def userRegistrationMessage : AddUserCode → Option (CStr maxData)
  | .userAlreadyExist => some ⟨ascii "Username already exists!.", by decide, by decide⟩
  | .userListFull => some ⟨ascii "User list is full!.", by decide, by decide⟩
  | .addUserSuccess => none

/-- `fill_and_send_message`. -/
def fillAndSend (socketFd : Nat) (type : UInt32) (source : CStr maxName) (data : Option (CStr maxData)) :
    Handler Unit := do
  let (_, bytes) ← checked (fillAndSendMessage type source data)
  write fun m => m.sent socketFd bytes

/-- The same bytes sent to each of some users. -/
def Memory.sentAll (m : Memory) (users : List User) (bytes : Bytes) : Memory :=
  { m with outbox := m.outbox ++ users.map fun u => (u.socketFd, bytes) }

/-! ### Login -/

/-- `verify_login`. -/
def verifyLogin (username password : Bytes) : Handler LoginCode := do
  let p ← read fun m => databaseSearchUser m.users username
  if p = none then return .usernameError
  else do
    let user ← deref p
    if user.password.bytes = password then
      if user.status = .online then return .alreadyLogin
      else return .successLogin
    else return .passwordError

/-- A record whose user has logged in. -/
def User.login (status : Status) (socketFd : Nat) (u : User) : User := { u with socketFd := socketFd, status := status }

/-- `user_login`. -/
def userLogin (username : Bytes) (status : Status) (socketFd : Nat) : Handler Unit := do
  lock .userList
  let p ← read fun m => databaseSearchUser m.users username
  if p = none then unlock .userList
  else do
    update p (User.login status socketFd)
    unlock .userList

/-! ### Sessions -/

/-- A record that has joined a session. -/
def User.join (id : CStr maxSessionLength) (u : User) : User := { u with sessionId := id, inSession := .online }

/-- A record that has created a session. -/
def User.create (id : CStr maxSessionLength) (u : User) : User :=
  { u with sessionId := id, inSession := .online, role := .admin }

/-- A record whose thread has ended. -/
def User.exit (u : User) : User := { u with status := .offline, socketFd := offlineFd }

/-- A record that has been removed from its session. -/
def User.kick (u : User) : User := { u with inSession := .offline, sessionId := notInSession }

/-- A record with another role. -/
def User.setRole (role : Role) (u : User) : User := { u with role := role }

/-- `server_side_session_create`. -/
def serverSideSessionCreate (username : CStr maxName) (sessionId : CStr maxData) : Handler Unit := do
  lock .userList
  let p ← read fun m => databaseSearchUser m.users username.bytes
  let count ← getUserCountInASession sessionId.bytes
  if count = 0 then
    let id ← checked (sessionId.copy? maxSessionLength)
    update p (User.create id)
    let user ← deref p
    fillAndSend user.socketFd MsgType.nsAck username (some sessionId)
  else
    let user ← deref p
    fillAndSend user.socketFd MsgType.newSess username (some (sessionResponseMessage .sessionExists))
  unlock .userList

/-- `server_side_session_join`. -/
def serverSideSessionJoin (username : CStr maxName) (sessionId : CStr maxData) : Handler Unit := do
  lock .userList
  let p ← read fun m => databaseSearchUser m.users username.bytes
  let sessionUserCount ← getUserCountInASession sessionId.bytes
  let user ← deref p
  if user.inSession = .online then
    fillAndSend user.socketFd MsgType.jnNak username (some (sessionResponseMessage .userNameInSession))
  else if sessionUserCount = 0 then
    fillAndSend user.socketFd MsgType.jnNak username (some (sessionResponseMessage .sessionNameInvalid))
  else if sessionUserCount = maxSessionUser then
    fillAndSend user.socketFd MsgType.jnNak username (some (sessionResponseMessage .sessionAtFullCapacity))
  else
    let id ← checked (sessionId.copy? maxSessionLength)
    update p (User.join id)
    fillAndSend user.socketFd MsgType.jnAck username (some sessionId)
  unlock .userList

/-- `server_side_session_leave`.  A user who is not in a session is returned early, with `user_list_mutex` held. -/
def serverSideSessionLeave (username : CStr maxName) : Handler Unit := do
  lock .userList
  let p ← read fun m => databaseSearchUser m.users username.bytes
  let user ← deref p
  if user.inSession = .offline then return ()
  else do
    userExitCurrentSession username.bytes
    let (_, bytes) ← checked (fillAndSendMessage MsgType.pmMessage serverName none)
    write fun m => m.sentAll (m.users.filter fun u => u.role = .admin) bytes
    unlock .userList

/-- `server_side_user_exit`. -/
def serverSideUserExit (username : CStr maxName) : Handler Unit := do
  let p ← read fun m => databaseSearchUser m.users username.bytes
  let user ← deref p
  if user.inSession = .online then serverSideSessionLeave username
  lock .userList
  update p User.exit
  unlock .userList

/-- The records that a chat message of a session goes to. -/
def recipients (users : List User) (sessionId : Bytes) : List User :=
  users.filter fun u => u.status = .online ∧ u.inSession = .online ∧ u.sessionId.bytes = sessionId

/-- `send_message_in_a_session`.  (What the uninitialised buffer held does not matter, see `messageToString_eq`.) -/
def sendMessageInASession (msg : Message) (sessionId : Bytes) : Handler Unit := do
  lock .userList
  let (buffer, _) ← checked (messageToString msg msg.size (CArray.zero accBufferSize))
  write fun m => m.sentAll (recipients m.users sessionId) (cstr buffer.bytes)
  unlock .userList

/-! ### Kicking and promoting -/

/-- One of the five refusals: reply, unlock, return. -/
def refuse (nak : UInt32) (sender : CStr maxName) (senderUser : Option Nat) (code : SessionCode) : Handler Unit := do
  let user ← deref senderUser
  fillAndSend user.socketFd nak sender (some (sessionResponseMessage code))
  unlock .userList

/-- The common part of `server_side_kick_user` and `server_side_promote_user`: the two searches and the five checks
before the request is granted. -/
def withTarget (nak : UInt32) (sender : CStr maxName) (target : Bytes)
    (grant : Option Nat → Option Nat → Handler Unit) : Handler Unit := do
  lock .userList
  let targetUser ← read fun m => databaseSearchUser m.users target
  let senderUser ← read fun m => databaseSearchUser m.users sender.bytes
  if targetUser = none then refuse nak sender senderUser .userDoesNotExist
  else
    let user ← deref targetUser
    if user.status = .offline then refuse nak sender senderUser .userNotOnline
    else if user.inSession = .offline then refuse nak sender senderUser .userNotInSession
    else
      let own ← deref senderUser
      if user.sessionId ≠ own.sessionId then refuse nak sender senderUser .userInDifferentSession
      else if user.role = .admin then refuse nak sender senderUser .targetIsAdmin
      else grant targetUser senderUser

/-- `server_side_kick_user`. -/
def serverSideKickUser (sender : CStr maxName) (target : Bytes) : Handler Unit :=
  withTarget MsgType.kiNak sender target fun targetUser senderUser => do
    update targetUser User.kick
    let user ← deref targetUser
    -- a sender that kicks itself reads its new session text here
    let own ← deref senderUser
    fillAndSend user.socketFd MsgType.kiMessage serverName (some (own.sessionId.widen maxSessionLength_le))
    fillAndSend own.socketFd MsgType.kiAck sender (some (user.username.widen maxName_le))
    unlock .userList

/-- `server_side_promote_user`. -/
def serverSidePromoteUser (sender : CStr maxName) (target : Bytes) : Handler Unit :=
  withTarget MsgType.pmNak sender target fun targetUser senderUser => do
    update targetUser (User.setRole .admin)
    update senderUser (User.setRole .user)
    let user ← deref targetUser
    let own ← deref senderUser
    fillAndSend user.socketFd MsgType.pmMessage serverName none
    fillAndSend own.socketFd MsgType.pmAck sender (some (user.username.widen maxName_le))
    unlock .userList

/-! ### `connection_handler` -/

/-- The local variables of a connection's thread.  Before the first login `source` is uninitialised. -/
structure Conn where
  source : CStr maxName
  serverConnectionStatus : Status
  deriving DecidableEq

/-- The dispatch of a received message; `none` ends the thread. -/
def dispatch (socketFd : Nat) (conn : Conn) (buffer : Bytes) (received : Message) (claimed : CStr maxName) :
    Handler (Option Conn) := do
  if received.type = MsgType.login then
    let replyType ← verifyLogin claimed.bytes (cstr received.data.bytes)
    if replyType = .successLogin then
      userLogin claimed.bytes .online socketFd
      fillAndSend socketFd MsgType.loAck claimed none
      return some ⟨claimed, .online⟩
    else
      fillAndSend socketFd MsgType.loNak claimed (selectLoginMessage replyType)
      return some conn
  else if received.type = MsgType.create then
    let replyType ← userRegistration claimed (cstr received.data.bytes) socketFd
    if replyType = .addUserSuccess then
      fillAndSend socketFd MsgType.rgAck claimed none
      return some ⟨claimed, .online⟩
    else
      fillAndSend socketFd MsgType.rgNak claimed (userRegistrationMessage replyType)
      return some conn
  else if received.type = MsgType.exit then
    serverSideUserExit conn.source
    return none
  else if received.type = MsgType.join then
    -- the text is printed before it is compared, so it has to be closed
    let data ← checked received.data.text?
    serverSideSessionJoin conn.source data
    return some conn
  else if received.type = MsgType.newSess then
    let data ← checked received.data.text?
    serverSideSessionCreate conn.source data
    return some conn
  else if received.type = MsgType.leaveSess then
    serverSideSessionLeave conn.source
    return some conn
  else if received.type = MsgType.query then
    let list ← getActiveUserListInDatabase
    let data ← checked (list.copy? maxData)
    fillAndSend socketFd MsgType.quAck claimed (some data)
    return some conn
  else if received.type = MsgType.sessQuery then
    let data ← checked received.data.text?
    let list ← getActiveUserListInASession data.bytes
    match list with
    | none => fillAndSend socketFd MsgType.sqNak claimed (some (sessionResponseMessage .sessionNameInvalid))
    | some list =>
      let data ← checked (list.copy? maxData)
      fillAndSend socketFd MsgType.sqAck claimed (some data)
    return some conn
  else if received.type = MsgType.message then
    let replyMessage ← checked (fillMessage .zero MsgType.message received.size claimed.mem received.data.bytes)
    let p ← read fun m => returnUserByUsername m.users claimed.bytes
    let sendingUser ← deref p
    sendMessageInASession replyMessage sendingUser.sessionId.bytes
    return some conn
  else if received.type = MsgType.kick then
    serverSideKickUser conn.source (cstr received.data.bytes)
    return some conn
  else if received.type = MsgType.promote then
    serverSidePromoteUser conn.source (cstr received.data.bytes)
    return some conn
  else
    -- any other message is sent back; `strlen` needs the buffer to be closed
    let bytes ← checked (if (0 : Byte) ∈ buffer then some (cstr buffer) else none)
    write fun m => m.sent socketFd bytes
    return some conn

/-- The message in a buffer, with the name it claims to come from.  (What the scratch array held does not matter, see
`stringToMessage_content`.) -/
def decode (buffer : Bytes) : Option (Message × CStr maxName) := do
  let received ← stringToMessage (CArray.zero 12) .zero buffer
  let claimed ← received.source.text?
  return (received, claimed)

/-- One turn of the loop of `connection_handler` that received `chunk`. -/
def serve (socketFd : Nat) (conn : Conn) (chunk : Bytes) : Handler (Option Conn) := do
  let (received, claimed) ← checked (decode (recvBuffer chunk))
  dispatch socketFd conn (recvBuffer chunk) received claimed

/-- The turn of the loop in which the connection turns out to be closed. -/
def serveDisconnect (conn : Conn) : Handler (Option Conn) := do
  if conn.serverConnectionStatus = .online then serverSideUserExit conn.source
  return none

/-! ### The server as a transition system -/

/-- A socket: without a connection, with the locals of the thread that serves it, or with a thread that waits for a
mutex for ever. -/
inductive Slot
  | closed
  | running (conn : Conn)
  | stuck
  deriving DecidableEq

structure ServerState where
  world : World Mutex Memory
  conns : Nat → Slot

inductive Event
  | accept (socketFd : Nat) (garbage : CStr maxName)
  | recv (socketFd : Nat) (chunk : Bytes)
  | disconnect (socketFd : Nat)

namespace ServerState

/-- The world in which an event is served: nothing has been sent yet. -/
def clear (s : ServerState) : World Mutex Memory := s.world.setMem { s.world.mem with outbox := [] }

def setConn (s : ServerState) (socketFd : Nat) (world : World Mutex Memory) (slot : Slot) : ServerState :=
  ⟨world, Function.update s.conns socketFd slot⟩

/-- The server after the thread of a connection has run. -/
def after (s : ServerState) (socketFd : Nat) : Outcome Mutex Memory (Option Conn) → Option ServerState
  | .ret (some conn) w => some (s.setConn socketFd w (.running conn))
  | .ret none w => some (s.setConn socketFd w .closed)
  | .blocked w => some (s.setConn socketFd w .stuck)
  | .fault => none

/-- One event; `none` when it cannot happen, or is undefined. -/
def next (s : ServerState) : Event → Option ServerState
  | .accept socketFd garbage =>
    if socketFd ≠ offlineFd ∧ s.conns socketFd = .closed then
      some (s.setConn socketFd s.clear (.running ⟨garbage, .offline⟩))
    else none
  | .recv socketFd chunk =>
    match s.conns socketFd with
    | .running conn =>
      if 0 < chunk.length ∧ chunk.length ≤ maximumBufferSize then
        s.after socketFd (serve socketFd conn chunk s.clear)
      else none
    | _ => none
  | .disconnect socketFd =>
    match s.conns socketFd with
    | .running conn => s.after socketFd (serveDisconnect conn s.clear)
    | _ => none

end ServerState

/-- The server after `set_up_database`. -/
def started (file : Bytes) (users : List User) : ServerState := ⟨⟨fun _ => false, ⟨users, file, []⟩⟩, fun _ => .closed⟩

/-- The server on the database file `file`. -/
def serverOn (file : Bytes) : System ServerState Event where
  init s := ∃ users, SetUpDatabase file users ∧ s = started file users
  step s e t := s.next e = some t

/-- The server on any database file that it loads. -/
def server : System ServerState Event where
  init s := ∃ file, (serverOn file).init s
  step s e t := s.next e = some t

end Conferencing
