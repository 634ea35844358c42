import NetLabs.Conferencing.User
import NetLabs.Lib.Scanf

/-!
# The database file (`set_up_database`, `user_registration`, `write_to_database` of `server/server.c`)

One account is one record `"<username>":"<password>"` of the file.  The server reads them all when it starts, with one
`fscanf` call for each turn of a loop that only `EOF` ends, and appends one line for each registration.
-/

namespace Conferencing

open CText LockProg

/-! ### Registration -/

/-- The record made by `user_registration`. -/
def registeredUser (username : CStr maxName) (password : CStr maxPasswordLength) (socketFd : Nat) : User where
  username := username
  password := password
  sessionId := notInSession
  inSession := .offline
  status := .online
  socketFd := socketFd
  role := .user

/-- What `fprintf(fp, "\n\"%s\":\"%s\"", username, password)` prints. -/
def recordLine (username password : Bytes) : Bytes :=
  10 :: 34 :: (username ++ 34 :: 58 :: 34 :: (password ++ [34]))

/-- `write_to_database`. -/
def writeToDatabase (userIndex : Nat) : Handler Unit := do
  let user ← deref (some userIndex)
  write fun m => m.appended (recordLine user.username.bytes user.password.bytes)

/-- `user_registration`. -/
def userRegistration (username : CStr maxName) (password : Bytes) (socketFd : Nat) : Handler AddUserCode := do
  lock .userList
  let password ← checked (CStr.ofBytes? maxPasswordLength password)
  let code ← userDatabaseAddUser (registeredUser username password socketFd)
  if code = .userAlreadyExist ∨ code = .userListFull then
    unlock .userList
    return code
  else
    let count ← getUserCountInDatabase
    writeToDatabase (count - 1)
    unlock .userList
    return code

/-- What `user_database_add_user` does to a table when `rw_mutex` is free. -/
def addUser (users : List User) (userData : User) : AddUserCode × List User :=
  if users.length ≥ maxUserCount then (.userListFull, users)
  else if databaseSearchUser users userData.username.bytes ≠ none then (.userAlreadyExist, users)
  else (.addUserSuccess, users ++ [createUser userData])

theorem run_userDatabaseAddUser {w : World Mutex Memory} (h : w.held .rw = false) (userData : User) :
    userDatabaseAddUser userData w =
      .ret (addUser w.mem.users userData).1 (w.setMem (w.mem.setUsers (addUser w.mem.users userData).2)) := by
  simp only [userDatabaseAddUser, getUserCountInDatabase, addUser, run_bind, bind_ret, run_lock h, run_read,
    run_unlock, run_pure, World.mem_acquire, World.release_acquire h]
  split
  · simp [World.release_acquire h]
  · simp only [run_bind, bind_ret, run_read, World.mem_acquire]
    split
    · simp [World.release_acquire h]
    · have h' : (w.setMem (w.mem.setUsers (w.mem.users ++ [createUser userData]))).held .rw = false := h
      simp [World.release_acquire h']

/-! ### Loading -/

abbrev maxPassword : Nat := 17

/-- The format `"\"%[^|\"]\":\"%[^|\"]\"\n"`. -/
def recordFormat : List Directive :=
  [.lit 34, .set [124, 34], .lit 34, .lit 58, .lit 34, .set [124, 34], .lit 34, .space]

/-- The local arrays `username` and `password`; `none` before their first assignment. -/
structure NameBuffers where
  username : Option (CStr maxName)
  password : Option (CStr maxPassword)

/-- An array after a call that may assign it: undefined when the text and its NUL do not fit. -/
def assign {n : Nat} (old : Option (CStr n)) (converted : Option Bytes) : Option (Option (CStr n)) :=
  match converted with
  | none => some old
  | some s => if s.length < n then (CStr.ofBytes? n (cstr s)).map some else none

/-- The two texts that the loop body copies after a call: undefined when an array overflows or is read before it has
been assigned. -/
def readNames (buffers : NameBuffers) (converted : List Bytes) : Option (CStr maxName × CStr maxPassword) := do
  let username ← assign buffers.username converted[0]?
  let password ← assign buffers.password converted[1]?
  return (← username, ← password)

/-- The record made by `set_up_database`. -/
def loadedUser (username : CStr maxName) (password : CStr maxPassword) : User where
  username := username
  password := password.widen (by decide)
  sessionId := notInSession
  inSession := .offline
  status := .offline
  socketFd := offlineFd
  role := .user

/-- The states of the loop of `set_up_database`. -/
inductive Load
  | loaded (users : List User)
  | undefined
  | running
  deriving DecidableEq

/-- The loop of `set_up_database`, for at most `fuel` turns.  No other thread runs yet, so `rw_mutex` is free. -/
def setUpDatabaseLoop : Nat → Bytes → NameBuffers → List User → Load
  | 0, _, _, _ => .running
  | fuel + 1, input, buffers, users =>
    let r := fscanf recordFormat input
    if r.isEOF then .loaded users
    else match readNames buffers r.converted with
      | none => .undefined
      | some (username, password) =>
        setUpDatabaseLoop fuel r.rest ⟨some username, some password⟩ (addUser users (loadedUser username password)).2

/-- `set_up_database` ends on this file with this table. -/
def SetUpDatabase (file : Bytes) (users : List User) : Prop :=
  ∃ fuel, setUpDatabaseLoop fuel file ⟨none, none⟩ [] = .loaded users

/-- What holds of the empty table and is kept by every addition holds of the table that is loaded. -/
theorem SetUpDatabase.invariant {P : List User → Prop} (h0 : P [])
    (hadd : ∀ users username password, P users → P (addUser users (loadedUser username password)).2)
    {file : Bytes} {users : List User} (h : SetUpDatabase file users) : P users := by
  have hloop : ∀ fuel input buffers table, P table → setUpDatabaseLoop fuel input buffers table = .loaded users →
      P users := by
    intro fuel
    induction fuel with
    | zero => intro _ _ _ _ h; cases h
    | succ fuel ih =>
      intro input buffers table htable h
      unfold setUpDatabaseLoop at h
      dsimp only at h
      split at h
      · cases h
        exact htable
      · split at h
        · cases h
        · exact ih _ _ _ (hadd _ _ _ htable) h
  obtain ⟨fuel, h⟩ := h
  exact hloop fuel file _ [] h0 h

/-- What holds of every record made by the loader holds of the whole table. -/
theorem SetUpDatabase.forall_users {P : User → Prop} (h0 : ∀ username password, P (loadedUser username password))
    {file : Bytes} {users : List User} (h : SetUpDatabase file users) : ∀ u ∈ users, P u := by
  refine SetUpDatabase.invariant (P := fun users => ∀ u ∈ users, P u) (by simp) (fun users username password hP => ?_) h
  unfold addUser
  split
  · exact hP
  · split
    · exact hP
    · intro u hu
      rcases List.mem_append.1 hu with hu | hu
      · exact hP u hu
      · rw [List.mem_singleton.1 hu]
        exact h0 _ _

/-- The loader stops adding records when the table is full. -/
theorem SetUpDatabase.length_le {file : Bytes} {users : List User} (h : SetUpDatabase file users) :
    users.length ≤ maxUserCount := by
  refine SetUpDatabase.invariant (P := fun users => users.length ≤ maxUserCount) (Nat.zero_le _)
    (fun users username password hle => ?_) h
  unfold addUser
  split
  · exact hle
  · split
    · exact hle
    · rw [List.length_append, List.length_singleton]
      omega

end Conferencing
