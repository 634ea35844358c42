import NetLabs.Conferencing.Interleaved

/-!
# A mutex that is never released

Once a handler has come back with `user_list_mutex` held, every request that needs the table waits for ever, and the
table stays as it is (`frozen`).  A user who is kicked between the check of its exit and the leaving is one way there,
and the only one that threads add to it (`exit_race`).
-/

namespace Conferencing

open CText LockProg Transition

/-- Somebody holds `user_list_mutex`, and the table and the file are those of `m`. -/
structure Frozen (m : Memory) (w : World Mutex Memory) : Prop where
  held : w.held .userList = true
  users : w.mem.users = m.users
  file : w.mem.file = m.file

section Frozen

variable {m : Memory} {w : World Mutex Memory}

private theorem frozen_lock {α : Type} (f : Unit → Handler α) : Preserves (Frozen m) (lock .userList >>= f) :=
  preserves_lock_held (fun _ h => h.held) f

private theorem frozen_deref (p : Option Nat) : Preserves (Frozen m) (deref p) := fun w h => preserves_checked _ w h

private theorem frozen_fillAndSend (socketFd : Nat) (type : UInt32) (source : CStr maxName)
    (data : Option (CStr maxData)) :
    Preserves (Frozen m) (fillAndSend socketFd type source data) :=
  (preserves_checked _).bind fun _ _ h => ⟨h.held, h.users, h.file⟩

private theorem frozen_verifyLogin (username password : Bytes) :
    Preserves (Frozen m) (verifyLogin username password) := by
  intro w h
  rw [run_verifyLogin]
  exact h

private theorem frozen_list : Preserves (Frozen m) getActiveUserListInDatabase := by
  intro w h
  rw [run_getActiveUserListInDatabase]
  split
  · exact h
  · cases CStr.ofBytes? maximumBufferSize (activeUserText w.mem.users) with
    | none => trivial
    | some list => exact h

private theorem frozen_sessionList (sessionId : Bytes) :
    Preserves (Frozen m) (getActiveUserListInASession sessionId) := by
  intro w h
  rw [run_getActiveUserListInASession]
  split
  · exact h
  · split
    · exact h
    · cases CStr.ofBytes? maximumBufferSize (sessionUserText w.mem.users sessionId) with
      | none => trivial
      | some list => exact h

private theorem frozen_exit (username : CStr maxName) : Preserves (Frozen m) (serverSideUserExit username) := by
  intro w h
  rcases record_or_none w.mem.users username.bytes with hnone | ⟨i, u, hrec⟩
  · rw [exit_notFound hnone]
    trivial
  · rw [run_serverSideUserExit hrec, if_pos h.held]
    exact h

private theorem frozen_dispatch (socketFd : Nat) (conn : Conn) (buffer : Bytes) (received : Message)
    (claimed : CStr maxName) :
    Preserves (Frozen m) (dispatch socketFd conn buffer received claimed) := by
  have hreply : ∀ fd type source data (c : Option Conn), Preserves (Frozen m)
      (fillAndSend fd type source data >>= fun _ => pure c) :=
    fun fd type source data c => (frozen_fillAndSend fd type source data).bind fun _ => preserves_pure c
  refine .ite (fun _ => (frozen_verifyLogin _ _).bind fun code => .ite (fun _ => ?login) fun _ => ?loNak) fun _ =>
    .ite (fun _ => ?create) fun _ =>
    .ite (fun _ => (frozen_exit _).bind fun _ => preserves_pure _) fun _ =>
    .ite (fun _ => (preserves_checked _).bind fun data => ?join) fun _ =>
    .ite (fun _ => (preserves_checked _).bind fun data => ?newSess) fun _ =>
    .ite (fun _ => ?leave) fun _ =>
    .ite (fun _ => frozen_list.bind fun list => (preserves_checked _).bind fun data => ?query) fun _ =>
    .ite (fun _ => (preserves_checked _).bind fun data => (frozen_sessionList _).bind fun list => ?sessQuery) fun _ =>
    .ite (fun _ => (preserves_checked _).bind fun reply => (preserves_read _).bind fun p =>
      (frozen_deref p).bind fun user => ?message) fun _ =>
    .ite (fun _ => ?kick) fun _ =>
    .ite (fun _ => ?promote) fun _ => (preserves_checked _).bind fun bytes => ?echo
  case login => exact Preserves.bind (frozen_lock _) fun _ => hreply _ _ _ _ _
  case loNak => exact hreply _ _ _ _ _
  case create =>
    refine Preserves.bind (frozen_lock _) fun code => .ite (fun _ => ?_) fun _ => ?_
    · exact hreply _ _ _ _ _
    · exact hreply _ _ _ _ _
  case join => exact Preserves.bind (frozen_lock _) fun _ => preserves_pure _
  case newSess => exact Preserves.bind (frozen_lock _) fun _ => preserves_pure _
  case leave => exact Preserves.bind (frozen_lock _) fun _ => preserves_pure _
  case query => exact hreply _ _ _ _ _
  case sessQuery =>
    cases list with
    | none => exact hreply _ _ _ _ _
    | some list => exact (preserves_checked _).bind fun data => hreply _ _ _ _ _
  case message => exact Preserves.bind (frozen_lock _) fun _ => preserves_pure _
  case kick => exact Preserves.bind (frozen_lock _) fun _ => preserves_pure _
  case promote => exact Preserves.bind (frozen_lock _) fun _ => preserves_pure _
  case echo =>
    exact Preserves.bind (fun _ h => ⟨h.held, h.users, h.file⟩) fun _ => preserves_pure _

private theorem frozen_serve (socketFd : Nat) (conn : Conn) (chunk : Bytes) :
    Preserves (Frozen m) (serve socketFd conn chunk) :=
  (preserves_checked _).bind fun p => frozen_dispatch socketFd conn _ p.1 p.2

private theorem frozen_disconnect (conn : Conn) : Preserves (Frozen m) (serveDisconnect conn) := by
  intro w h
  unfold serveDisconnect
  split
  · exact (frozen_exit _ w h).bind fun _ => preserves_pure _
  · exact h

private theorem frozen_after {s t : ServerState} {socketFd : Nat} {o : Outcome Mutex Memory (Option Conn)}
    (h : o.All (Frozen m)) (ht : s.after socketFd o = some t) : Frozen m t.world := by
  cases o with
  | ret r w => cases r <;> cases ht <;> exact h
  | blocked w =>
    cases ht
    exact h
  | fault => cases ht

private theorem frozen_clear {s : ServerState} (h : Frozen m s.world) : Frozen m s.clear := ⟨h.held, h.users, h.file⟩

/-- No event changes what is frozen. -/
private theorem frozen_next {s t : ServerState} {e : Event} (h : Frozen m s.world) (hnext : s.next e = some t) :
    Frozen m t.world := by
  cases e with
  | accept socketFd garbage =>
    simp only [ServerState.next, Option.ite_none_right_eq_some, Option.some.injEq] at hnext
    rw [← hnext.2]
    exact frozen_clear h
  | recv socketFd chunk =>
    simp only [ServerState.next] at hnext
    split at hnext
    · simp only [Option.ite_none_right_eq_some] at hnext
      exact frozen_after (frozen_serve socketFd _ chunk _ (frozen_clear h)) hnext.2
    · cases hnext
  | disconnect socketFd =>
    simp only [ServerState.next] at hnext
    split at hnext
    · exact frozen_after (frozen_disconnect _ _ (frozen_clear h)) hnext
    · cases hnext

private theorem frozen_verifyStep (socketFd : Nat) (received : Message) (claimed : CStr maxName) :
    Preserves (Frozen m) (verifyStep socketFd received claimed) :=
  (frozen_verifyLogin _ _).bind fun _ => .ite (fun _ => preserves_pure _) fun _ =>
    (frozen_fillAndSend _ _ _ _).bind fun _ => preserves_pure _

private theorem frozen_exitCheck (username : CStr maxName) : Preserves (Frozen m) (exitCheck username) :=
  (preserves_read _).bind fun p => (frozen_deref p).bind fun _ => preserves_pure _

/-- No step of a thread does either. -/
private theorem frozen_step {s t : ThreadedState} {a : ThreadStep} (h : Frozen m s.server.world)
    (hst : s.next a = some t) :
    Frozen m t.server.world := by
  have hclear := frozen_clear h
  cases a with
  | turn e =>
    simp only [ThreadedState.next, Option.ite_none_right_eq_some, Option.map_eq_some_iff] at hst
    obtain ⟨-, t', hnext, rfl⟩ := hst
    exact frozen_next h hnext
  | verify socketFd chunk =>
    simp only [ThreadedState.next] at hst
    split at hst
    · rename_i conn received claimed _ _ _
      simp only [Option.ite_none_right_eq_some] at hst
      obtain ⟨-, hst⟩ := hst
      have hall := frozen_verifyStep socketFd received claimed _ hclear
      split at hst
      · cases hst
        exact h
      · rename_i hrun
        cases hst
        exact hall.of_ret hrun
      · rename_i hrun
        cases hst
        exact hall.of_blocked hrun
      · cases hst
    · cases hst
  | login socketFd =>
    simp only [ThreadedState.next] at hst
    split at hst
    · obtain ⟨t', hafter, rfl⟩ := Option.map_eq_some_iff.1 hst
      refine frozen_after ?_ hafter
      exact Preserves.bind (frozen_lock _) (fun _ => (frozen_fillAndSend _ _ _ _).bind fun _ => preserves_pure _) _ hclear
    · cases hst
  | check e =>
    simp only [ThreadedState.next] at hst
    split at hst
    · rename_i conn _ _
      have hall := frozen_exitCheck conn.source _ hclear
      split at hst
      · cases hst
        exact h
      · rename_i hrun
        cases hst
        exact hall.of_blocked hrun
      · cases hst
    · cases hst
  | leave socketFd =>
    simp only [ThreadedState.next] at hst
    split at hst
    · obtain ⟨t', hafter, rfl⟩ := Option.map_eq_some_iff.1 hst
      refine frozen_after ?_ hafter
      exact Outcome.All.bind (frozen_lock _ _ hclear) fun _ => preserves_pure _
    · cases hst
  | clear socketFd =>
    simp only [ThreadedState.next] at hst
    split at hst
    · obtain ⟨t', hafter, rfl⟩ := Option.map_eq_some_iff.1 hst
      refine frozen_after ?_ hafter
      exact Outcome.All.bind (frozen_lock _ _ hclear) fun _ => preserves_pure _
    · cases hst

end Frozen

/-- Nothing that the threads do any more changes the table or the file. -/
private theorem frozen {m : Memory} {s t : ThreadedState} (h : Frozen m s.server.world) (hsteps : Steps threaded s t) :
    Frozen m t.server.world := by
  induction hsteps with
  | refl => exact h
  | tail _ hst ih =>
    obtain ⟨a, hst⟩ := hst
    exact frozen_step ih hst

/-! ### The race of an exit with a kick -/

/-- What is left of an exit that is behind its check.  If its user is still in a session, the thread leaves it and the
mutexes are free again.  If the user has been taken out of the session since, the thread locks `user_list_mutex` and
nobody ever unlocks it: whatever the threads do from then on, no record and no account changes any more. -/
theorem exit_race {s t : ThreadedState} (hr : Reachable (threaded.when Orderly) s) (hfree : s.server.world.Free)
    {socketFd : Nat} (hst : s.next (.leave socketFd) = some t) :
    ∃ conn i u, s.server.conns socketFd = .running conn ∧ Record s.server.world.mem.users conn.source.bytes i u ∧
      (t.server.world.Free ↔ u.inSession = .online) ∧
      (u.inSession = .offline → ∀ t', Steps threaded t t' → Frozen s.server.world.mem t'.server.world) := by
  obtain ⟨hserver, hstaged⟩ := staged_of_reachable hr
  have hplaced := placed_of_reachable (hserver.when_mono fun _ _ _ h => h.2)
  obtain ⟨conn, p, hconn, hstage⟩ := leave_enabled hst
  have hknows := hstaged socketFd conn hconn
  rw [hstage] at hknows
  obtain ⟨-, i, u, rfl, hrec⟩ := hknows
  have hrec' : Record s.server.clear.mem.users conn.source.bytes i u := hrec
  refine ⟨conn, i, u, hconn, hrec, ?_⟩
  have hul : s.server.clear.held .userList = false := hfree .userList
  have hrw : s.server.clear.held .rw = false := hfree .rw
  simp only [ThreadedState.next, hconn, hstage, run_serverSideSessionLeave hrec', hul, hrw, Bool.false_eq_true,
    ↓reduceIte] at hst
  cases hin : u.inSession with
  | online =>
    have hid : u.sessionId ≠ notInSession := hplaced u hrec.mem hin
    simp only [hin, hid, reduceCtorEq, ↓reduceIte] at hst
    cases hst
    exact ⟨iff_of_true hfree rfl, fun h => by cases h⟩
  | offline =>
    simp only [hin, ↓reduceIte] at hst
    cases hst
    have hfrozen : Frozen s.server.world.mem (s.server.clear.acquire .userList) := ⟨by simp, rfl, rfl⟩
    refine ⟨iff_of_false (fun h => ?_) (by decide), fun _ t' hsteps => frozen hfrozen hsteps⟩
    cases hfrozen.held.symm.trans (h .userList)

/-- `bob` kicks `ann` before the thread of `ann` leaves the session. -/
theorem exit_race_kick : ∃ s t, runFrom (guarded Orderly ThreadedState.next) threadsStarted
      (annExits ++ [.turn (.recv 3 (ascii "16:3:bob:ann"))]) = some s ∧ s.next (.leave 4) = some t ∧
    ∃ conn i u, s.server.conns 4 = .running conn ∧ Record s.server.world.mem.users conn.source.bytes i u ∧
      (t.server.world.Free ↔ u.inSession = .online) ∧
      (u.inSession = .offline → ∀ t', Steps threaded t t' → Frozen s.server.world.mem t'.server.world) := by
  let steps : List ThreadStep := annExits ++ [.turn (.recv 3 (ascii "16:3:bob:ann"))]
  obtain ⟨s, hs⟩ : ∃ s, runFrom (guarded Orderly ThreadedState.next) threadsStarted steps = some s :=
    Option.isSome_iff_exists.1 (by decide)
  have hstate : (runFrom (guarded Orderly ThreadedState.next) threadsStarted steps).map (fun s =>
      (s.server.world.held .userList, s.server.world.held .rw, (s.next (.leave 4)).isSome)) =
      some (false, false, true) := by decide
  rw [hs, Option.map_some, Option.some.injEq, Prod.mk.injEq, Prod.mk.injEq] at hstate
  obtain ⟨hul, hrw, hnext⟩ := hstate
  obtain ⟨t, ht⟩ := Option.isSome_iff_exists.1 hnext
  have hr : Reachable (threaded.when Orderly) s := reachable_guarded (fun _ _ _ h => h) threaded_init hs
  have hfree : s.server.world.Free := by
    rintro (_ | _)
    · exact hul
    · exact hrw
  exact ⟨s, t, hs, ht, exit_race hr hfree ht⟩

end Conferencing
