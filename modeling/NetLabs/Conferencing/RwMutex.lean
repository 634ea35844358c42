import NetLabs.Conferencing.Membership

/-!
# `rw_mutex`

The handlers hold `rw_mutex` for the length of one read or write of the table.  The one way to keep it is to leave the
session of the reserved name, so nobody holds it between two events of a run in which no request takes the reserved
text as the name of a session (`rwFree_of_reachable`).
-/

namespace Conferencing

open CText LockProg Transition

/-- Nobody holds `rw_mutex`. -/
abbrev RwFree : World Mutex Memory → Prop := IsFree .rw

section RwFree

variable {w : World Mutex Memory}

@[simp] theorem preserves_deref (p : Option Nat) : Preserves RwFree (deref p) := fun w h => preserves_checked _ w h

@[simp] theorem preserves_update (p : Option Nat) (f : User → User) : Preserves RwFree (update p f) := by
  unfold update
  simp

@[simp] theorem preserves_lock_userList : Preserves RwFree (lock .userList) := preserves_lock (by decide)

@[simp] theorem preserves_fillAndSend (socketFd : Nat) (type : UInt32) (source : CStr maxName)
    (data : Option (CStr maxData)) : Preserves RwFree (fillAndSend socketFd type source data) := by
  unfold fillAndSend
  simp

@[simp] theorem preserves_getUserCountInASession (sessionId : Bytes) :
    Preserves RwFree (getUserCountInASession sessionId) := by
  intro w h
  rw [run_getUserCountInASession h]
  exact h

@[simp] theorem preserves_getActiveUserListInDatabase : Preserves RwFree getActiveUserListInDatabase := by
  intro w h
  rw [run_getActiveUserListInDatabase, show w.held .rw = false from h]
  cases CStr.ofBytes? maximumBufferSize (activeUserText w.mem.users) with
  | none => trivial
  | some list => exact h

@[simp] theorem preserves_getActiveUserListInASession (sessionId : Bytes) :
    Preserves RwFree (getActiveUserListInASession sessionId) := by
  intro w h
  rw [run_getActiveUserListInASession, show w.held .rw = false from h]
  simp only [Bool.false_eq_true, ↓reduceIte]
  split
  · exact h
  · cases CStr.ofBytes? maximumBufferSize (sessionUserText w.mem.users sessionId) with
    | none => trivial
    | some list => exact h

@[simp] theorem preserves_verifyLogin (username password : Bytes) : Preserves RwFree (verifyLogin username password) := by
  intro w h
  rw [run_verifyLogin]
  exact h

@[simp] theorem preserves_userLogin (username : Bytes) (status : Status) (socketFd : Nat) :
    Preserves RwFree (userLogin username status socketFd) := by
  refine preserves_lock_userList.bind fun _ => (preserves_read _).bind fun p =>
    .ite (fun _ => preserves_unlock) fun _ => ?_
  simp

@[simp] theorem preserves_userRegistration (username : CStr maxName) (password : Bytes) (socketFd : Nat) :
    Preserves RwFree (userRegistration username password socketFd) := by
  intro w h
  rw [run_userRegistration, show w.held .rw = false from h]
  split
  · exact h
  · cases CStr.ofBytes? maxPasswordLength password with
    | none => trivial
    | some password => exact h

@[simp] theorem preserves_sendMessageInASession (msg : Message) (sessionId : Bytes) :
    Preserves RwFree (sendMessageInASession msg sessionId) := by
  refine preserves_lock_userList.bind fun _ => (preserves_checked _).bind fun p => ?_
  simp

@[simp] theorem preserves_create (username : CStr maxName) (sessionId : CStr maxData) :
    Preserves RwFree (serverSideSessionCreate username sessionId) := by
  refine preserves_lock_userList.bind fun _ => (preserves_read _).bind fun p =>
    (preserves_getUserCountInASession _).bind fun count => .ite (fun _ => ?_) fun _ => ?_
  · refine (preserves_checked _).bind fun id => (preserves_update _ _).bind fun _ => ?_
    simp
  · simp

@[simp] theorem preserves_join (username : CStr maxName) (sessionId : CStr maxData) :
    Preserves RwFree (serverSideSessionJoin username sessionId) := by
  refine preserves_lock_userList.bind fun _ => (preserves_read _).bind fun p =>
    (preserves_getUserCountInASession _).bind fun count => (preserves_deref p).bind fun user =>
      .ite (fun _ => ?_) fun _ => .ite (fun _ => ?_) fun _ => .ite (fun _ => ?_) fun _ => ?_
  · simp
  · simp
  · simp
  · refine (preserves_checked _).bind fun id => ?_
    simp

@[simp] theorem preserves_refuse (nak : UInt32) (sender : CStr maxName) (senderUser : Option Nat) (code : SessionCode) :
    Preserves RwFree (refuse nak sender senderUser code) := by
  unfold refuse
  simp

private theorem preserves_withTarget {nak : UInt32} {sender : CStr maxName} {target : Bytes}
    {grant : Option Nat → Option Nat → Handler Unit} (hgrant : ∀ p q, Preserves RwFree (grant p q)) :
    Preserves RwFree (withTarget nak sender target grant) := by
  refine preserves_lock_userList.bind fun _ => (preserves_read _).bind fun p => (preserves_read _).bind fun q =>
    .ite (fun _ => preserves_refuse _ _ _ _) fun _ => (preserves_deref p).bind fun user =>
      .ite (fun _ => preserves_refuse _ _ _ _) fun _ => .ite (fun _ => preserves_refuse _ _ _ _) fun _ =>
        (preserves_deref q).bind fun own => .ite (fun _ => preserves_refuse _ _ _ _) fun _ =>
          .ite (fun _ => preserves_refuse _ _ _ _) fun _ => hgrant p q

@[simp] theorem preserves_kick (sender : CStr maxName) (target : Bytes) :
    Preserves RwFree (serverSideKickUser sender target) := by
  refine preserves_withTarget fun p q => (preserves_update p _).bind fun _ => (preserves_deref p).bind fun user =>
    (preserves_deref q).bind fun own => ?_
  simp

@[simp] theorem preserves_promote (sender : CStr maxName) (target : Bytes) :
    Preserves RwFree (serverSidePromoteUser sender target) := by
  refine preserves_withTarget fun p q => (preserves_update p _).bind fun _ => (preserves_update q _).bind fun _ =>
    (preserves_deref p).bind fun user => (preserves_deref q).bind fun own => ?_
  simp

/-- The ways out of a session lock `rw_mutex` for good in a session of the reserved name only. -/
private theorem leave_rwFree (hplaced : ∀ u ∈ w.mem.users, u.Placed) (h : RwFree w) (name : CStr maxName) :
    (serverSideSessionLeave name w).All RwFree := by
  have hrw : w.held .rw = false := h
  rcases record_or_none w.mem.users name.bytes with hnone | ⟨i, u, hrec⟩
  · rw [leave_notFound hnone]
    split
    · exact h
    · trivial
  · rw [run_serverSideSessionLeave hrec, hrw]
    split
    · exact h
    · split
      · exact (w.held_acquire_of_ne (by decide)).trans hrw
      · rename_i hin
        split
        · contradiction
        · split
          · rename_i hid
            exact absurd ((hplaced u hrec.mem).no_session hid) hin
          · exact h

private theorem exit_rwFree (hplaced : ∀ u ∈ w.mem.users, u.Placed) (h : RwFree w) (name : CStr maxName) :
    (serverSideUserExit name w).All RwFree := by
  have hrw : w.held .rw = false := h
  rcases record_or_none w.mem.users name.bytes with hnone | ⟨i, u, hrec⟩
  · rw [exit_notFound hnone]
    trivial
  · rw [run_serverSideUserExit hrec, hrw]
    split
    · exact h
    · split
      · exact h
      · rename_i hin
        split
        · contradiction
        · split
          · rename_i hid
            exact absurd ((hplaced u hrec.mem).no_session hid) hin
          · exact h

private theorem dispatch_rwFree (hplaced : ∀ u ∈ w.mem.users, u.Placed) (h : RwFree w) (socketFd : Nat) (conn : Conn)
    (buffer : Bytes) (received : Message) (claimed : CStr maxName) :
    (dispatch socketFd conn buffer received claimed w).All RwFree := by
  by_cases hexit : received.type = MsgType.exit
  · rw [dispatch_exit hexit]
    exact (exit_rwFree hplaced h _).bind fun _ => preserves_pure _
  · by_cases hleave : received.type = MsgType.leaveSess
    · rw [dispatch_leave hleave]
      exact (leave_rwFree hplaced h _).bind fun _ => preserves_pure _
    · have hpreserves : Preserves RwFree (dispatch socketFd conn buffer received claimed) := by
        refine .ite (fun _ => (preserves_verifyLogin _ _).bind fun code => .ite (fun _ => ?loAck) fun _ => ?loNak) fun _ =>
          .ite (fun _ => (preserves_userRegistration _ _ _).bind fun code => .ite (fun _ => ?rgAck) fun _ => ?rgNak) fun _ =>
          .ite (fun h => absurd h hexit) fun _ =>
          .ite (fun _ => ?join) fun _ =>
          .ite (fun _ => ?newSess) fun _ =>
          .ite (fun h => absurd h hleave) fun _ =>
          .ite (fun _ => preserves_getActiveUserListInDatabase.bind fun list => ?query) fun _ =>
          .ite (fun _ => (preserves_checked _).bind fun data =>
            (preserves_getActiveUserListInASession _).bind fun list => ?sessQuery) fun _ =>
          .ite (fun _ => (preserves_checked _).bind fun reply => (preserves_read _).bind fun p => ?message) fun _ =>
          .ite (fun _ => ?kick) fun _ =>
          .ite (fun _ => ?promote) fun _ => ?echo
        case sessQuery =>
          cases list with
          | none => simp
          | some list => simp
        all_goals simp
      exact hpreserves w h

private theorem serve_rwFree (hplaced : ∀ u ∈ w.mem.users, u.Placed) (h : RwFree w) (socketFd : Nat) (conn : Conn)
    (chunk : Bytes) : (serve socketFd conn chunk w).All RwFree := by
  cases hdec : decode (recvBuffer chunk) with
  | none =>
    simp only [serve, hdec, run_bind, run_checked_none]
    trivial
  | some p =>
    rw [serve_eq hdec]
    exact dispatch_rwFree hplaced h _ _ _ _ _

private theorem serveDisconnect_rwFree (hplaced : ∀ u ∈ w.mem.users, u.Placed) (h : RwFree w) (conn : Conn) :
    (serveDisconnect conn w).All RwFree := by
  unfold serveDisconnect
  split
  · exact (exit_rwFree hplaced h _).bind fun _ => preserves_pure _
  · exact h

end RwFree

private theorem rwFree_turn {s t : ServerState} {e : Event} (hturn : Turn s e t)
    (hplaced : ∀ u ∈ s.world.mem.users, u.Placed)
    (h : RwFree s.world) : RwFree t.world := by
  have hserve := serve_rwFree (w := s.clear) hplaced h
  have hdisconnect := serveDisconnect_rwFree (w := s.clear) hplaced h
  cases hturn with
  | accepted _ _ => exact h
  | @served socketFd chunk conn _ _ _ _ _ _ hrun _ => exact (hserve socketFd conn chunk).of_ret hrun
  | @recvWaits socketFd chunk conn _ _ hrun _ => exact (hserve socketFd conn chunk).of_blocked hrun
  | @disconnected _ conn _ _ hrun _ => exact (hdisconnect conn).of_ret hrun
  | @disconnectWaits _ conn _ _ hrun _ => exact (hdisconnect conn).of_blocked hrun

theorem rwFree_of_reachable {s : ServerState} (hr : Reachable (server.when ReservedFree) s) : RwFree s.world := by
  induction hr with
  | init h =>
    obtain ⟨file, users, -, rfl⟩ := h
    rfl
  | step hr hst ih => exact rwFree_turn (ServerState.turn hst.2) (placed_of_reachable hr) ih

end Conferencing
