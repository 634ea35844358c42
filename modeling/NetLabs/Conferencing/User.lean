import NetLabs.Conferencing.Message
import NetLabs.Lib.LockProg
import NetLabs.Lib.Table

/-!
# The user table (`server/user.c`, `server/user.h`)

The table is a list of records, a pointer into it an index or `NULL` (`none`).  Reading or writing through `NULL` is
undefined.  The functions take and release `rw_mutex` as in the source, on every return path.

Left out of a record: the address and the port of its user, which are printed only.  The capacity of the table is not
part of its state: a record past the allocated sixteen is appended like any other.
-/

namespace Conferencing

open CText LockProg

abbrev maxSessionCount : Nat := 10
abbrev maxSessionUser : Nat := 6
abbrev maxUserCount : Nat := 100

/-- `OFFLINE` as a socket. -/
abbrev offlineFd : Nat := 0

/-- `user_t`. -/
structure User where
  username : CStr maxName
  password : CStr maxPasswordLength
  sessionId : CStr maxSessionLength
  inSession : Status
  status : Status
  socketFd : Nat
  role : Role
  deriving DecidableEq

/-- The name under which a record is found. -/
def User.name (u : User) : Bytes := u.username.bytes

/-- `user_list_mutex` and `rw_mutex`. -/
inductive Mutex
  | userList
  | rw
  deriving DecidableEq

/-- The memory of the server: the user table, the contents of the database file, and what has been sent to which
socket since the current request arrived. -/
structure Memory where
  users : List User
  file : Bytes
  outbox : List (Nat × Bytes)
  deriving DecidableEq

/-- A piece of server code. -/
abbrev Handler (α : Type) := Prog Mutex Memory α

namespace Memory

def setUsers (m : Memory) (users : List User) : Memory := { m with users := users }

def sent (m : Memory) (fd : Nat) (bytes : Bytes) : Memory := { m with outbox := m.outbox ++ [(fd, bytes)] }

def appended (m : Memory) (text : Bytes) : Memory := { m with file := m.file ++ text }

@[simp] theorem users_setUsers (m : Memory) (users : List User) : (m.setUsers users).users = users := rfl
@[simp] theorem users_sent (m : Memory) (fd : Nat) (bytes : Bytes) : (m.sent fd bytes).users = m.users := rfl
@[simp] theorem users_appended (m : Memory) (text : Bytes) : (m.appended text).users = m.users := rfl
@[simp] theorem outbox_setUsers (m : Memory) (users : List User) : (m.setUsers users).outbox = m.outbox := rfl
@[simp] theorem outbox_appended (m : Memory) (text : Bytes) : (m.appended text).outbox = m.outbox := rfl
@[simp] theorem outbox_sent (m : Memory) (fd : Nat) (bytes : Bytes) :
    (m.sent fd bytes).outbox = m.outbox ++ [(fd, bytes)] := rfl
@[simp] theorem file_setUsers (m : Memory) (users : List User) : (m.setUsers users).file = m.file := rfl
@[simp] theorem file_sent (m : Memory) (fd : Nat) (bytes : Bytes) : (m.sent fd bytes).file = m.file := rfl
@[simp] theorem setUsers_setUsers (m : Memory) (users users' : List User) :
    (m.setUsers users).setUsers users' = m.setUsers users' := rfl
@[simp] theorem setUsers_users (m : Memory) : m.setUsers m.users = m := rfl

end Memory

/-! ### Pointers into the table -/

/-- Follow a pointer. -/
def deref (p : Option Nat) : Handler User := fun w => checked (p.bind (w.mem.users[·]?)) w

/-- Write through a pointer. -/
def update (p : Option Nat) (f : User → User) : Handler Unit := do
  let i ← checked p
  write fun m => m.setUsers (m.users.modify i f)

/-- `database_search_user`. -/
def databaseSearchUser (users : List User) (username : Bytes) : Option Nat := Table.search User.name users username

/-- `return_user_by_username`, the same search. -/
def returnUserByUsername (users : List User) (username : Bytes) : Option Nat := databaseSearchUser users username

/-! ### Counting and listing -/

/-- `get_user_count_in_database`. -/
def getUserCountInDatabase : Handler Nat := do
  lock .rw
  let count ← read fun m => m.users.length
  unlock .rw
  return count

/-- The records whose session is `sessionId`. -/
def countInSession (users : List User) (sessionId : Bytes) : Nat :=
  users.countP fun u => u.sessionId.bytes = sessionId

/-- `get_user_count_in_a_session`. -/
def getUserCountInASession (sessionId : Bytes) : Handler Nat := do
  lock .rw
  let count ← read fun m => countInSession m.users sessionId
  unlock .rw
  return count

/-- `%*s` with a negative width. -/
def padRight (width : Nat) (s : Bytes) : Bytes := s ++ List.replicate (width - s.length) 32

/-- One line of the list of online users. -/
def activeUserLine (username sessionId : Bytes) : Bytes :=
  padRight maxName username ++ 32 :: (padRight maxSessionCount sessionId ++ [10])

/-- The text built by `get_active_user_list_in_database`. -/
def activeUserText (users : List User) : Bytes :=
  ascii "Active User List:\n" ++ activeUserLine (ascii "Username") (ascii "Session ID") ++
    ((users.filter fun u => u.status = .online).flatMap fun u => activeUserLine u.username.bytes u.sessionId.bytes)

/-- `get_active_user_list_in_database`: the text in a buffer of `maximum_buffer_size` bytes. -/
def getActiveUserListInDatabase : Handler (CStr maximumBufferSize) := do
  lock .rw
  let text ← read fun m => activeUserText m.users
  let list ← checked (CStr.ofBytes? maximumBufferSize text)
  unlock .rw
  return list

/-- One line of the list of users in a session. -/
def sessionUserLine (username sessionId role : Bytes) : Bytes :=
  padRight maxName username ++ 32 :: (padRight maxSessionCount sessionId ++ 32 :: (padRight 6 role ++ [10]))

def Role.name : Role → Bytes
  | .admin => ascii "ADMIN"
  | .user => ascii "USER"

/-- The text built by `get_active_user_list_in_a_session`. -/
def sessionUserText (users : List User) (sessionId : Bytes) : Bytes :=
  ascii "Active User List:\n" ++ sessionUserLine (ascii "Username") (ascii "Session ID") (ascii "Role") ++
    ((users.filter fun u => u.sessionId.bytes = sessionId).flatMap fun u =>
      sessionUserLine u.username.bytes u.sessionId.bytes u.role.name)

/-- `get_active_user_list_in_a_session`; `none` is the code `SESSION_NAME_INVALID`. -/
def getActiveUserListInASession (sessionId : Bytes) : Handler (Option (CStr maximumBufferSize)) := do
  let count ← getUserCountInASession sessionId
  if count = 0 then return none
  else do
    lock .rw
    let text ← read fun m => sessionUserText m.users sessionId
    let list ← checked (CStr.ofBytes? maximumBufferSize text)
    unlock .rw
    return some list

/-! ### Registration -/

/-- The results of `user_database_add_user`. -/
inductive AddUserCode
  | addUserSuccess
  | userAlreadyExist
  | userListFull
  deriving DecidableEq

/-- `create_user` into a zeroed record: `in_session` is not copied. -/
def createUser (userToAdd : User) : User := { userToAdd with inSession := .offline }

/-- `user_database_add_user`. -/
def userDatabaseAddUser (userData : User) : Handler AddUserCode := do
  let userCount ← getUserCountInDatabase
  lock .rw
  if userCount ≥ maxUserCount then
    unlock .rw
    return .userListFull
  else
    let found ← read fun m => databaseSearchUser m.users userData.username.bytes
    if found ≠ none then
      unlock .rw
      return .userAlreadyExist
    else
      write fun m => m.setUsers (m.users ++ [createUser userData])
      unlock .rw
      return .addUserSuccess

/-! ### Leaving a session -/

/-- A record that has left its session. -/
def User.leave (u : User) : User := { u with inSession := .offline, role := .user, sessionId := notInSession }

/-- The loop of `set_the_only_user_admin`. -/
def onlyUserAdmin (users : List User) (sessionId : Bytes) : List User :=
  users.map fun u => if u.sessionId.bytes = sessionId then
    (if u.role = .user then { u with role := .admin } else u) else u

/-- `set_the_only_user_admin`. -/
def setTheOnlyUserAdmin (sessionId : Bytes) : Handler Unit := do
  lock .rw
  write fun m => m.setUsers (onlyUserAdmin m.users sessionId)
  unlock .rw

/-- `user_exit_current_session`.  A user whose session is `NOT_IN_SESSION` is returned early, with `rw_mutex` held. -/
def userExitCurrentSession (username : Bytes) : Handler Unit := do
  lock .rw
  let p ← read fun m => returnUserByUsername m.users username
  let user ← deref p
  if user.sessionId = notInSession then return ()
  else do
    update p User.leave
    unlock .rw
    let _ ← getUserCountInASession user.sessionId.bytes
    let count ← getUserCountInASession user.sessionId.bytes
    if count = 1 then setTheOnlyUserAdmin user.sessionId.bytes

end Conferencing
