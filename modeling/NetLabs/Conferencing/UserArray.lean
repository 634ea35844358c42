import NetLabs.Conferencing.Capacity
import NetLabs.Lib.Buffer
import NetLabs.Lib.Simulation

/-!
# The user table in memory (`server/user.c`)

The rest of the development works on a list of records.  Here are the functions of `user.c` as they are written: loops over
an array of sixteen allocated records, of which the first `count` are in use.  They do what the functions on lists do,
operation by operation and in every sequence of operations, as long as no record is added to sixteen others
(`user_table_refines`).

The locks are left out; the rest of the development says where they are held.
-/

namespace Conferencing

open CText Transition

/-- `user_database`; `capacity` is the number of the allocated records, and never changes. -/
abbrev UserDatabase := Buffer User

private theorem maxName_pos : 0 < maxName := Nat.succ_pos _
private theorem maxPasswordLength_pos : 0 < maxPasswordLength := Nat.succ_pos _
private theorem maxSessionLength_pos : 0 < maxSessionLength := Nat.succ_pos _

/-- A record after `memset(.., 0, sizeof(user_t))`. -/
def User.blank : User :=
  ⟨.empty maxName_pos, .empty maxPasswordLength_pos, .empty maxSessionLength_pos, .offline, .offline, 0, .user⟩

namespace UserDatabase

/-- `user_database_init`. -/
def userDatabaseInit : UserDatabase := Buffer.alloc databaseInitialCapacity

/-- `database_search_user` and `return_user_by_username`: the pointer is an index or `NULL`. -/
def databaseSearchUser (list : UserDatabase) (username : Bytes) : Option (Option Nat) :=
  list.scan (fun u => decide (u.name = username)) list.count 0

/-- `user_database_add_user`. -/
def userDatabaseAddUser (list : UserDatabase) (userData : User) : Option (UserDatabase × AddUserCode) :=
  if list.count ≥ maxUserCount then some (list, .userListFull)
  else (databaseSearchUser list userData.username.bytes).bind fun found =>
    if found ≠ none then some (list, .userAlreadyExist)
    else (list.push (createUser userData)).map fun list => (list, .addUserSuccess)

/-- `remove_user_by_name_in_database`. -/
def removeUserByName (list : UserDatabase) (name : Bytes) : Option UserDatabase :=
  (databaseSearchUser list name).bind fun
    | none => some list
    | some i => list.removeAt i User.blank

/-- The loop of `get_user_count_in_a_session`. -/
def userCountInASession (list : UserDatabase) (sessionId : Bytes) : Option Nat :=
  list.fold (fun count u => if u.sessionId.bytes = sessionId then count + 1 else count) 0

/-- The loop of `set_the_only_user_admin`. -/
def setTheOnlyUserAdmin (list : UserDatabase) (sessionId : Bytes) : Option UserDatabase :=
  list.mapInPlace fun u => if u.sessionId.bytes = sessionId then
    (if u.role = .user then { u with role := .admin } else u) else u

/-- The loop of `get_active_user_list_in_database`, behind the two lines at the top. -/
def activeUserList (list : UserDatabase) : Option Bytes :=
  list.fold (fun text u =>
      if u.status = .online then text ++ activeUserLine u.username.bytes u.sessionId.bytes else text)
    (ascii "Active User List:\n" ++ activeUserLine (ascii "Username") (ascii "Session ID"))

/-- The loop of `get_active_user_list_in_a_session`, behind the two lines at the top. -/
def sessionUserList (list : UserDatabase) (sessionId : Bytes) : Option Bytes :=
  list.fold (fun text u => if u.sessionId.bytes = sessionId then
      text ++ sessionUserLine u.username.bytes u.sessionId.bytes u.role.name else text)
    (ascii "Active User List:\n" ++ sessionUserLine (ascii "Username") (ascii "Session ID") (ascii "Role"))

/-- Writing through the pointer that a search returns. -/
def update (list : UserDatabase) (username : Bytes) (f : User → User) : Option UserDatabase :=
  (databaseSearchUser list username).bind fun p => p.bind fun i => list.modify i f

end UserDatabase

/-! ### Sequences of operations -/

inductive TableOp
  | add (userData : User)
  | remove (name : Bytes)
  | search (username : Bytes)
  | count (sessionId : Bytes)
  | admin (sessionId : Bytes)
  | activeList
  | sessionList (sessionId : Bytes)
  | update (username : Bytes) (f : User → User)

inductive TableResult
  | code (c : AddUserCode)
  | place (p : Option Nat)
  | number (n : Nat)
  | text (t : Bytes)
  | done

/-- The operations on the array. -/
def TableOp.onArray (list : UserDatabase) : TableOp → Option (UserDatabase × TableResult)
  | .add userData => (list.userDatabaseAddUser userData).map fun (list, c) => (list, .code c)
  | .remove name => (list.removeUserByName name).map fun list => (list, .done)
  | .search username => (list.databaseSearchUser username).map fun p => (list, .place p)
  | .count sessionId => (list.userCountInASession sessionId).map fun n => (list, .number n)
  | .admin sessionId => (list.setTheOnlyUserAdmin sessionId).map fun list => (list, .done)
  | .activeList => list.activeUserList.map fun t => (list, .text t)
  | .sessionList sessionId => (list.sessionUserList sessionId).map fun t => (list, .text t)
  | .update username f => (list.update username f).map fun list => (list, .done)

/-- The operations on the list, which are undefined where a record would be added to sixteen others, and for `NULL`. -/
def TableOp.onList (users : List User) : TableOp → Option (List User × TableResult)
  | .add userData =>
    if (addUser users userData).1 = .addUserSuccess ∧ databaseInitialCapacity ≤ users.length then none
    else some ((addUser users userData).2, .code (addUser users userData).1)
  | .remove name => match databaseSearchUser users name with
    | none => some (users, .done)
    | some i => some (users.eraseIdx i, .done)
  | .search username => some (users, .place (databaseSearchUser users username))
  | .count sessionId => some (users, .number (countInSession users sessionId))
  | .admin sessionId => some (onlyUserAdmin users sessionId, .done)
  | .activeList => some (users, .text (activeUserText users))
  | .sessionList sessionId => some (users, .text (sessionUserText users sessionId))
  | .update username f => (databaseSearchUser users username).map fun i => (users.modify i f, .done)

/-- One operation after the other, with their results. -/
def performs {σ : Type} (perform : σ → TableOp → Option (σ × TableResult)) (p : σ × List TableResult) (op : TableOp) :
    Option (σ × List TableResult) :=
  (perform p.1 op).map fun (s, r) => (s, p.2 ++ [r])

/-- The array holds the list, and the results are the same. -/
def SameTable {ρ : Type} (p : UserDatabase × ρ) (q : List User × ρ) : Prop :=
  p.1.Holds databaseInitialCapacity q.1 ∧ p.2 = q.2

section Refinement

variable {list : UserDatabase} {users : List User}

private theorem search_eq (h : list.Holds databaseInitialCapacity users) (username : Bytes) :
    list.databaseSearchUser username = some (databaseSearchUser users username) := h.scan

private theorem foldl_if {p : User → Prop} [DecidablePred p] {f : User → Bytes} (users : List User) (init : Bytes) :
    users.foldl (fun text u => if p u then text ++ f u else text) init =
      init ++ (users.filter fun u => p u).flatMap f := by
  induction users generalizing init with
  | nil => simp
  | cons u users ih =>
    rw [List.foldl_cons, ih]
    by_cases hu : p u
    · simp [hu]
    · simp [hu]

private theorem foldl_count {p : User → Prop} [DecidablePred p] (users : List User) (n : Nat) :
    users.foldl (fun count u => if p u then count + 1 else count) n = n + users.countP fun u => p u := by
  induction users generalizing n with
  | nil => rfl
  | cons u users ih =>
    rw [List.foldl_cons, ih, List.countP_cons]
    by_cases hu : p u
    · simp only [hu, if_true, decide_true]
      omega
    · simp only [hu, if_false, decide_false, Bool.false_eq_true, Nat.add_zero]

private theorem rel_add (h : list.Holds databaseInitialCapacity users) (userData : User) :
    Option.Rel SameTable (TableOp.onArray list (.add userData)) (TableOp.onList users (.add userData)) := by
  have hcount := h.count_eq
  simp only [TableOp.onArray, TableOp.onList, UserDatabase.userDatabaseAddUser, search_eq h, hcount, Option.bind_some]
  by_cases hfull : users.length ≥ maxUserCount
  · have hadd : addUser users userData = (.userListFull, users) := if_pos hfull
    rw [hadd, if_pos hfull, if_neg (fun h => by cases h.1)]
    exact .some ⟨h, rfl⟩
  by_cases hfound : databaseSearchUser users userData.username.bytes ≠ none
  · have hadd : addUser users userData = (.userAlreadyExist, users) := by
      rw [addUser, if_neg hfull, if_pos hfound]
    rw [hadd, if_neg hfull, if_pos hfound, if_neg (fun h => by cases h.1)]
    exact .some ⟨h, rfl⟩
  have hadd : addUser users userData = (.addUserSuccess, users ++ [createUser userData]) := by
    rw [addUser, if_neg hfull, if_neg hfound]
  rw [hadd, if_neg hfull, if_neg hfound]
  by_cases hroom : databaseInitialCapacity ≤ users.length
  · rw [h.push_full hroom, if_pos ⟨rfl, hroom⟩]
    exact .none
  · obtain ⟨list', hpush, hlist'⟩ := h.push (Nat.not_le.1 hroom) (createUser userData)
    rw [hpush, if_neg (fun h => hroom h.2)]
    exact .some ⟨hlist', rfl⟩

private theorem rel_op (h : list.Holds databaseInitialCapacity users) (op : TableOp) :
    Option.Rel SameTable (op.onArray list) (op.onList users) := by
  cases op with
  | add userData => exact rel_add h userData
  | remove name =>
    simp only [TableOp.onArray, TableOp.onList, UserDatabase.removeUserByName, search_eq h, Option.bind_some]
    cases hfound : databaseSearchUser users name with
    | none => exact .some ⟨h, rfl⟩
    | some i =>
      obtain ⟨u, hu⟩ := Table.exists_at hfound
      obtain ⟨list', hremove, hlist'⟩ := h.removeAt (List.getElem?_eq_some_iff.1 hu.get).1 User.blank
      simp only [hremove]
      exact .some ⟨hlist', rfl⟩
  | search username =>
    simp only [TableOp.onArray, TableOp.onList, search_eq h]
    exact .some ⟨h, rfl⟩
  | count sessionId =>
    simp only [TableOp.onArray, TableOp.onList, UserDatabase.userCountInASession, h.fold, foldl_count, Nat.zero_add]
    exact .some ⟨h, rfl⟩
  | admin sessionId =>
    obtain ⟨list', hmap, hlist'⟩ := h.mapInPlace fun u => if u.sessionId.bytes = sessionId then
      (if u.role = .user then { u with role := .admin } else u) else u
    simp only [TableOp.onArray, TableOp.onList, UserDatabase.setTheOnlyUserAdmin, hmap]
    exact .some ⟨hlist', rfl⟩
  | activeList =>
    simp only [TableOp.onArray, TableOp.onList, UserDatabase.activeUserList, h.fold, foldl_if]
    exact .some ⟨h, rfl⟩
  | sessionList sessionId =>
    simp only [TableOp.onArray, TableOp.onList, UserDatabase.sessionUserList, h.fold, foldl_if]
    exact .some ⟨h, rfl⟩
  | update username f =>
    simp only [TableOp.onArray, TableOp.onList, UserDatabase.update, search_eq h, Option.bind_some]
    cases hfound : databaseSearchUser users username with
    | none => exact .none
    | some i =>
      obtain ⟨u, hu⟩ := Table.exists_at hfound
      obtain ⟨list', hmodify, hlist'⟩ := h.modify (List.getElem?_eq_some_iff.1 hu.get).1 f
      simp only [Option.bind_some, hmodify]
      exact .some ⟨hlist', rfl⟩

end Refinement

/-- Any sequence of operations on the array does what it does on the list, and both are undefined together. -/
theorem user_table_refines (ops : List TableOp) :
    Option.Rel SameTable (runFrom (performs fun list op => op.onArray list) (UserDatabase.userDatabaseInit, []) ops)
      (runFrom (performs fun users op => op.onList users) ([], []) ops) := by
  refine rel_runFrom (fun p q op h => ?_) ⟨Buffer.holds_alloc _, rfl⟩ ops
  obtain ⟨list, results⟩ := p
  obtain ⟨users, results'⟩ := q
  obtain ⟨h, rfl⟩ : list.Holds databaseInitialCapacity users ∧ results = results' := h
  have hrel := rel_op h op
  simp only [performs]
  generalize op.onArray list = x at hrel ⊢
  generalize op.onList users = y at hrel ⊢
  cases hrel with
  | some hrel => exact .some ⟨hrel.1, congrArg (fun r => results ++ [r]) hrel.2⟩
  | none => exact .none

end Conferencing
