import NetLabs.Conferencing.LoginRace
import NetLabs.Conferencing.Managed

/-!
# Handlers that interleave

Two requests act later on what they have checked without a lock: `LOGIN` verifies, and then logs in;
`server_side_user_exit` looks whether its user is in a session, leaves the session, and then clears the status.  Here
these are steps of their own, between which other threads run; a request whose handler keeps `user_list_mutex` from its
first access to the table to the last is one step.

If no login is overtaken by another one to its account, what the threads do is what the server does when it serves
requests one after another (`serialized`).
-/

namespace Conferencing

open CText LockProg Transition

/-! ### The steps of an exit -/

/-- The search and the check of `server_side_user_exit`. -/
def exitCheck (username : CStr maxName) : Handler (Option Nat × Bool) := do
  let p ← read fun m => databaseSearchUser m.users username.bytes
  let user ← deref p
  return (p, decide (user.inSession = .online))

/-- The end of `server_side_user_exit`. -/
def exitClear (p : Option Nat) : Handler Unit := do
  lock .userList
  update p User.exit
  unlock .userList

/-- `server_side_user_exit` is its check, the leaving of the session if there is one, and its end. -/
private theorem serverSideUserExit_eq (username : CStr maxName) : serverSideUserExit username = (do
    let (p, inSession) ← exitCheck username
    if inSession then serverSideSessionLeave username
    exitClear p) := by
  funext w
  simp only [serverSideUserExit, exitCheck, exitClear, run_bind, run_read, bind_ret]
  cases hderef : deref (databaseSearchUser w.mem.users username.bytes) w with
  | ret user w' =>
    cases hin : user.inSession <;> simp [hin]
  | blocked w' => rfl
  | fault => rfl

/-- Where the thread of a connection is: at the top of its loop, or behind a check. -/
inductive Stage
  | ready
  | verified (chunk : Bytes) (claimed : CStr maxName)
  | leaving (user : Option Nat)
  | clearing (user : Option Nat)
  deriving DecidableEq

/-- The account that a thread has verified. -/
def Stage.claimed? : Stage → Option (CStr maxName)
  | .verified _ claimed => some claimed
  | _ => none

/-- The server, and where each thread is. -/
structure ThreadedState where
  server : ServerState
  stage : Nat → Stage

inductive ThreadStep
  | turn (e : Event)
  | verify (socketFd : Nat) (chunk : Bytes)
  | login (socketFd : Nat)
  | check (e : Event)
  | leave (socketFd : Nat)
  | clear (socketFd : Nat)

/-- The connection whose thread calls `server_side_user_exit` when it serves the event. -/
def exiting (s : ServerState) : Event → Option Conn
  | .accept _ _ => none
  | .recv socketFd chunk => (s.conns socketFd).conn?.filter fun _ =>
      0 < chunk.length ∧ chunk.length ≤ maximumBufferSize ∧
        (decode (recvBuffer chunk)).any fun p => p.1.type = MsgType.exit
  | .disconnect socketFd => (s.conns socketFd).conn?.filter fun conn => conn.serverConnectionStatus = .online

namespace ThreadedState

def setStage (s : ThreadedState) (server : ServerState) (socketFd : Nat) (stage : Stage) : ThreadedState :=
  ⟨server, Function.update s.stage socketFd stage⟩

/-- One step.  A check that succeeds shows nothing to the other threads. -/
def next (s : ThreadedState) : ThreadStep → Option ThreadedState
  | .turn e =>
    if s.stage e.socket = .ready ∧ ¬ e.IsLogin ∧ exiting s.server e = none then
      (s.server.next e).map fun t => ⟨t, s.stage⟩
    else none
  | .verify socketFd chunk =>
    match s.server.conns socketFd, s.stage socketFd, loginRequest chunk with
    | .running conn, .ready, some (received, claimed) =>
      if 0 < chunk.length ∧ chunk.length ≤ maximumBufferSize then
        match verifyStep socketFd received claimed s.server.clear with
        | .ret true _ => some (s.setStage s.server socketFd (.verified chunk claimed))
        | .ret false w => some ⟨s.server.setConn socketFd w (.running conn), s.stage⟩
        | .blocked w => some ⟨s.server.setConn socketFd w .stuck, s.stage⟩
        | .fault => none
      else none
    | _, _, _ => none
  | .login socketFd =>
    match s.server.conns socketFd, s.stage socketFd with
    | .running _, .verified _ claimed =>
      (s.server.after socketFd (loginStep socketFd claimed s.server.clear)).map fun t => s.setStage t socketFd .ready
    | _, _ => none
  | .check e =>
    match exiting s.server e, s.stage e.socket with
    | some conn, .ready =>
      match exitCheck conn.source s.server.clear with
      | .ret (p, inSession) _ => some (s.setStage s.server e.socket (if inSession then .leaving p else .clearing p))
      | .blocked w => some ⟨s.server.setConn e.socket w .stuck, s.stage⟩
      | .fault => none
    | _, _ => none
  | .leave socketFd =>
    match s.server.conns socketFd, s.stage socketFd with
    | .running conn, .leaving p =>
      (s.server.after socketFd ((serverSideSessionLeave conn.source s.server.clear).bind fun _ => pure (some conn))).map
        fun t => s.setStage t socketFd (.clearing p)
    | _, _ => none
  | .clear socketFd =>
    match s.server.conns socketFd, s.stage socketFd with
    | .running _, .clearing p =>
      (s.server.after socketFd ((exitClear p s.server.clear).bind fun _ => pure none)).map
        fun t => s.setStage t socketFd .ready
    | _, _ => none

end ThreadedState

/-- The server with its threads. -/
def threaded : System ThreadedState ThreadStep where
  init s := server.init s.server ∧ s.stage = fun _ => .ready
  step s a t := s.next a = some t

/-! ### What a thread knows -/

/-- What is known where a thread is: the account it has verified, or the user whose thread exits. -/
def Stage.Knows (s : ServerState) (conn : Conn) : Stage → Prop
  | .ready => True
  | .verified chunk claimed => 0 < chunk.length ∧ chunk.length ≤ maximumBufferSize ∧
      ∃ received i u, loginRequest chunk = some (received, claimed) ∧
        Record s.world.mem.users claimed.bytes i u ∧ u.password.bytes = cstr received.data.bytes
  | .leaving p => conn.serverConnectionStatus = .online ∧
      ∃ i u, p = some i ∧ Record s.world.mem.users conn.source.bytes i u
  | .clearing p => conn.serverConnectionStatus = .online ∧
      ∃ i u, p = some i ∧ Record s.world.mem.users conn.source.bytes i u ∧ u.inSession = .offline

def Staged (s : ThreadedState) : Prop :=
  ∀ fd conn, s.server.conns fd = .running conn → (s.stage fd).Knows s.server conn

private theorem account_of_changes {u u' : User} (h : Relation.ReflTransGen Change u u') : u'.account = u.account := by
  induction h with
  | refl => rfl
  | tail _ hstep ih => exact hstep.account.trans ih

/-- What the event of another connection does to the record of the user `name`. -/
inductive Bystands (s : ServerState) (e : Event) (name : Bytes) (u : User) : User → Prop
  | same : Bystands s e name u u
  | role (r : Role) : Bystands s e name u (u.setRole r)
  | kick (hasked : ∃ sender, askedAction s e = some (.kick sender name)) : Bystands s e name u u.kick

section Knows

variable {s t : ServerState} {e : Event} {fd : Nat} {conn : Conn}

/-- The event of another connection leaves the user of a connection that is logged in as it is, but for its role, or
kicks it. -/
theorem bystands {i : Nat} {u : User} (howned : Owned s) (hof : OfLoggedIn s e) (hturn : Turn s e t)
    (hconn : s.conns fd = .running conn) (hfd : e.socket ≠ fd) (hon : conn.serverConnectionStatus = .online)
    (hrec : Record s.world.mem.users conn.source.bytes i u) :
    ∃ u', Record t.world.mem.users conn.source.bytes i u' ∧ Bystands s e conn.source.bytes u u' := by
  have hsame : ∀ {w : World Mutex Memory}, w.mem = s.clear.mem →
      ∃ u', Record w.mem.users conn.source.bytes i u' ∧ Bystands s e conn.source.bytes u u' := by
    intro w hmem
    exact ⟨u, hmem ▸ hrec, .same⟩
  -- the name belongs to the connection `fd`
  have hother : ∀ {fd' conn'}, s.conns fd' = .running conn' → fd' ≠ fd → conn'.serverConnectionStatus = .online →
      ¬ Record s.world.mem.users conn'.source.bytes i u := by
    intro fd' conn' hconn' hne hon' hown
    exact hne (howned.alone _ _ _ _ hconn' hconn hon' hon (hown.key_eq.symm.trans hrec.key_eq))
  cases hturn with
  | accepted _ _ => exact hsame rfl
  | @served socketFd chunk conn' received claimed r w hconn' hdec _ hserved =>
    rcases hserved.touched with htouched | ⟨-, password, hnew⟩
    · obtain ⟨u', hrec', htouch⟩ := hrec.pointwise htouched fun _ _ _ h => h.name_eq
      refine ⟨u', hrec', ?_⟩
      have hfar : ∀ {type : UInt32} {P : Prop}, received.type = type → type ≠ MsgType.login → type ≠ MsgType.create →
          Record s.world.mem.users conn'.source.bytes i u → P := by
        intro type P htype hlogin hcreate hown
        rcases hof conn' (by rw [hconn']; rfl) _ hdec with h | h | h
        · exact absurd hown (hother hconn' hfd h)
        · exact absurd (htype.symm.trans h) hlogin
        · exact absurd (htype.symm.trans h) hcreate
      cases htouch with
      | same => exact .same
      | login _ hrec'' hoff =>
        obtain ⟨j, v, hv, hvon⟩ := howned.online _ _ hconn hon
        obtain ⟨rfl, rfl⟩ := hv.unique hrec
        cases hvon.symm.trans hoff
      | exit htype h =>
        cases h with
        | same _ => exact .same
        | out hown _ => exact hfar htype (by decide) (by decide) hown
        | own hown _ _ => exact hfar htype (by decide) (by decide) hown
        | last _ => exact .role .admin
      | create htype hown _ _ => exact hfar htype (by decide) (by decide) hown
      | join htype hown _ _ => exact hfar htype (by decide) (by decide) hown
      | leave htype h =>
        cases h with
        | same _ => exact .same
        | own hown _ _ => exact hfar htype (by decide) (by decide) hown
        | last _ => exact .role .admin
      | kick htype _ htarget _ =>
        have htext : cstr received.data.bytes = conn.source.bytes := htarget.key_eq.symm.trans hrec.key_eq
        refine .kick ⟨conn'.source.bytes, ?_⟩
        simp only [askedAction, hconn', Slot.conn?, Option.bind_some, hdec, requestedAction, htype, htext]
        rfl
      | promote _ _ _ _ => exact .role .admin
      | demote _ _ _ => exact .role .user
    · refine ⟨u, ?_, .same⟩
      rw [show (s.setConn socketFd w (slotOf r)).world.mem.users = _ from hnew]
      exact hrec.append _
  | recvWaits _ _ hmem => exact hsame hmem
  | @disconnected socketFd conn' w hconn' _ hserved =>
    rcases hserved with ⟨-, hmem⟩ | ⟨hon', hx⟩
    · exact hsame hmem
    · obtain ⟨u', hrec', hquit⟩ := hrec.pointwise hx.quits fun _ _ _ h => h.name_eq
      refine ⟨u', hrec', ?_⟩
      cases hquit with
      | same _ => exact .same
      | out hown _ => exact absurd hown (hother hconn' hfd hon')
      | own hown _ _ => exact absurd hown (hother hconn' hfd hon')
      | last _ => exact .role .admin
  | disconnectWaits _ _ hmem => exact hsame hmem

/-- What a thread knows stays true while other threads are served. -/
theorem Stage.Knows.turn {stage : Stage} (h : stage.Knows s conn) (howned : Owned s) (hof : OfLoggedIn s e)
    (hturn : Turn s e t) (hconn : s.conns fd = .running conn) (hfd : e.socket ≠ fd) : stage.Knows t conn := by
  cases stage with
  | ready => trivial
  | verified chunk claimed =>
    obtain ⟨hpos, hlen, received, i, u, hrequest, hrec, hpw⟩ := h
    obtain ⟨u', hrec', hchange⟩ := hturn.record hrec
    have hsame : u'.password = u.password := congrArg Prod.snd (account_of_changes hchange)
    exact ⟨hpos, hlen, received, i, u', hrequest, hrec', by rw [hsame, hpw]⟩
  | leaving p =>
    obtain ⟨hon, i, u, hp, hrec⟩ := h
    obtain ⟨u', hrec', -⟩ := hturn.record hrec
    exact ⟨hon, i, u', hp, hrec'⟩
  | clearing p =>
    obtain ⟨hon, i, u, hp, hrec, hout⟩ := h
    obtain ⟨u', hrec', hbystands⟩ := bystands howned hof hturn hconn hfd hon hrec
    refine ⟨hon, i, u', hp, hrec', ?_⟩
    cases hbystands with
    | kick _ => rfl
    | _ => exact hout

end Knows

/-! ### Requests one after another -/

/-- A message that asks to leave the session. -/
def leaveChunk : Bytes := ascii "7:0::"

private theorem decode_leaveChunk : ∃ received claimed, decode (recvBuffer leaveChunk) = some (received, claimed) ∧
    received.type = MsgType.leaveSess ∧ 0 < leaveChunk.length ∧ leaveChunk.length ≤ maximumBufferSize := by
  have h : (decode (recvBuffer leaveChunk)).map (fun p => p.1.type) = some MsgType.leaveSess := by decide
  obtain ⟨⟨received, claimed⟩, hdec, htype⟩ := Option.map_eq_some_iff.1 h
  exact ⟨received, claimed, hdec, htype, by decide, by decide⟩

/-- The event that does at once what a step does. -/
inductive Does (s : ThreadedState) : ThreadStep → Event → Prop
  | turn (e : Event) : Does s (.turn e) e
  | refused (socketFd : Nat) (chunk : Bytes) (h : loginRequest chunk ≠ none) :
      Does s (.verify socketFd chunk) (.recv socketFd chunk)
  | login (socketFd : Nat) {chunk : Bytes} {claimed : CStr maxName} (hstage : s.stage socketFd = .verified chunk claimed)
      (h : loginRequest chunk ≠ none) : Does s (.login socketFd) (.recv socketFd chunk)
  | leave {socketFd : Nat} {conn : Conn} {p : Option Nat} (hconn : s.server.conns socketFd = .running conn)
      (hstage : s.stage socketFd = .leaving p) : Does s (.leave socketFd) (.recv socketFd leaveChunk)
  | clear (socketFd : Nat) : Does s (.clear socketFd) (.disconnect socketFd)

/-- A login that finds its account as it has been verified, and requests of connections that are logged in. -/
def Orderly (s : ThreadedState) : ThreadStep → Prop
  | .turn e => OfLoggedIn s.server e ∧ ReservedFree s.server e
  | .check e => OfLoggedIn s.server e
  | .login socketFd => ∀ claimed ∈ (s.stage socketFd).claimed?,
      ∀ own ∈ ownRecord s.server.world.mem.users claimed.bytes, own.status = .offline
  | _ => True

instance (s : ThreadedState) : DecidablePred (Orderly s)
  | .turn e => inferInstanceAs (Decidable (OfLoggedIn s.server e ∧ ReservedFree s.server e))
  | .check e => inferInstanceAs (Decidable (OfLoggedIn s.server e))
  | .login socketFd => inferInstanceAs (Decidable (∀ claimed ∈ (s.stage socketFd).claimed?,
      ∀ own ∈ ownRecord s.server.world.mem.users claimed.bytes, own.status = .offline))
  | .verify _ _ => inferInstanceAs (Decidable True)
  | .leave _ => inferInstanceAs (Decidable True)
  | .clear _ => inferInstanceAs (Decidable True)

section Steps

variable {s t : ThreadedState} {socketFd : Nat} {conn : Conn} {chunk : Bytes} {claimed : CStr maxName} {p : Option Nat}

private theorem login_enabled (hst : s.next (.login socketFd) = some t) : ∃ conn chunk claimed,
    s.server.conns socketFd = .running conn ∧ s.stage socketFd = .verified chunk claimed := by
  simp only [ThreadedState.next] at hst
  split at hst
  · exact ⟨_, _, _, ‹_›, ‹_›⟩
  · cases hst

theorem leave_enabled (hst : s.next (.leave socketFd) = some t) : ∃ conn p,
    s.server.conns socketFd = .running conn ∧ s.stage socketFd = .leaving p := by
  simp only [ThreadedState.next] at hst
  split at hst
  · exact ⟨_, _, ‹_›, ‹_›⟩
  · cases hst

private theorem clear_enabled (hst : s.next (.clear socketFd) = some t) : ∃ conn p,
    s.server.conns socketFd = .running conn ∧ s.stage socketFd = .clearing p := by
  simp only [ThreadedState.next] at hst
  split at hst
  · exact ⟨_, _, ‹_›, ‹_›⟩
  · cases hst

private theorem login_next (hconn : s.server.conns socketFd = .running conn)
    (hstage : s.stage socketFd = .verified chunk claimed) (hknows : (Stage.verified chunk claimed).Knows s.server conn)
    (hoff : ∀ own ∈ ownRecord s.server.world.mem.users claimed.bytes, own.status = .offline)
    (hst : s.next (.login socketFd) = some t) :
    s.server.next (.recv socketFd chunk) = some t.server ∧ t.stage = Function.update s.stage socketFd .ready := by
  obtain ⟨hpos, hlen, received, i, u, hrequest, hrec, hpw⟩ := hknows
  obtain ⟨hdec, htype⟩ := loginRequest_eq_some hrequest
  have hcode : loginCode s.server.clear.mem.users claimed.bytes (cstr received.data.bytes) = .successLogin := by
    rw [← hpw]
    exact loginCode_offline hrec (hoff u (ownRecord_eq hrec))
  have hrun : serve socketFd conn chunk s.server.clear = loginStep socketFd claimed s.server.clear := by
    rw [serve_eq hdec, dispatch_login htype, run_bind, run_verifyStep, if_pos hcode]
    rfl
  simp only [ThreadedState.next, hconn, hstage, Option.map_eq_some_iff] at hst
  obtain ⟨t', hafter, rfl⟩ := hst
  refine ⟨?_, rfl⟩
  simp only [ServerState.next, hconn, hpos, hlen, and_self, ↓reduceIte, hrun]
  exact hafter

private theorem leave_next (hconn : s.server.conns socketFd = .running conn) (hstage : s.stage socketFd = .leaving p)
    (hst : s.next (.leave socketFd) = some t) :
    s.server.next (.recv socketFd leaveChunk) = some t.server ∧
      t.stage = Function.update s.stage socketFd (.clearing p) := by
  obtain ⟨received, claimed, hdec, htype, hpos, hlen⟩ := decode_leaveChunk
  simp only [ThreadedState.next, hconn, hstage, Option.map_eq_some_iff] at hst
  obtain ⟨t', hafter, rfl⟩ := hst
  refine ⟨?_, rfl⟩
  simp only [ServerState.next, hconn, hpos, hlen, and_self, ↓reduceIte, serve_leave hdec htype]
  exact hafter

private theorem clear_next (hconn : s.server.conns socketFd = .running conn) (hstage : s.stage socketFd = .clearing p)
    (hknows : (Stage.clearing p).Knows s.server conn) (hst : s.next (.clear socketFd) = some t) :
    s.server.next (.disconnect socketFd) = some t.server ∧ t.stage = Function.update s.stage socketFd .ready := by
  obtain ⟨hon, i, u, rfl, hrec, hout⟩ := hknows
  have hrec' : Record s.server.clear.mem.users conn.source.bytes i u := hrec
  have hfound : databaseSearchUser s.server.clear.mem.users conn.source.bytes = some i := hrec.found
  have hrun : serverSideUserExit conn.source s.server.clear = exitClear (some i) s.server.clear := by
    simp [serverSideUserExit_eq, exitCheck, hfound, run_deref hrec'.get, hout]
  simp only [ThreadedState.next, hconn, hstage, Option.map_eq_some_iff] at hst
  obtain ⟨t', hafter, rfl⟩ := hst
  refine ⟨?_, rfl⟩
  simp only [ServerState.next, hconn, serveDisconnect, hon, ↓reduceIte, run_bind, hrun]
  exact hafter

/-- A refused login. -/
private theorem verify_next (hst : s.next (.verify socketFd chunk) = some t) :
    (∃ conn received claimed, s.server.conns socketFd = .running conn ∧ s.stage socketFd = .ready ∧
        loginRequest chunk = some (received, claimed) ∧ 0 < chunk.length ∧ chunk.length ≤ maximumBufferSize ∧
        loginCode s.server.world.mem.users claimed.bytes (cstr received.data.bytes) = .successLogin ∧
        t = s.setStage s.server socketFd (.verified chunk claimed)) ∨
      loginRequest chunk ≠ none ∧ s.server.next (.recv socketFd chunk) = some t.server ∧ t.stage = s.stage ∧
        s.stage socketFd = .ready := by
  simp only [ThreadedState.next] at hst
  split at hst
  · rename_i conn received claimed hconn hstage hrequest
    simp only [Option.ite_none_right_eq_some] at hst
    obtain ⟨⟨hpos, hlen⟩, hst⟩ := hst
    obtain ⟨hdec, htype⟩ := loginRequest_eq_some hrequest
    by_cases hcode : loginCode s.server.clear.mem.users claimed.bytes (cstr received.data.bytes) = .successLogin
    · rw [run_verifyStep, if_pos hcode] at hst
      exact Or.inl ⟨conn, received, claimed, hconn, hstage, hrequest, hpos, hlen, hcode, (Option.some.inj hst).symm⟩
    · obtain ⟨w, hverify⟩ : ∃ w, verifyStep socketFd received claimed s.server.clear = .ret false w :=
        ⟨_, by rw [run_verifyStep, if_neg hcode]⟩
      rw [hverify] at hst
      obtain rfl := Option.some.inj hst
      refine Or.inr ⟨by simp [hrequest], ?_, rfl, hstage⟩
      have hrun : serve socketFd conn chunk s.server.clear = .ret (some conn) w := by
        rw [serve_eq hdec, dispatch_login htype, run_bind, hverify]
        rfl
      simp only [ServerState.next, hconn, hpos, hlen, and_self, ↓reduceIte, hrun]
      rfl
  · cases hst

private theorem exiting_eq_some {s : ServerState} {e : Event} (h : exiting s e = some conn) :
    s.conns e.socket = .running conn ∧ (OfLoggedIn s e → conn.serverConnectionStatus = .online) := by
  have hrunning : ∀ {slot : Slot}, slot.conn? = some conn → slot = .running conn := by
    rintro (_ | c | _) hslot
    · cases hslot
    · cases hslot
      rfl
    · cases hslot
  cases e with
  | accept socketFd garbage => cases h
  | recv socketFd chunk =>
    obtain ⟨hconn, hp⟩ := Option.filter_eq_some_iff.1 h
    refine ⟨hrunning hconn, fun hof => ?_⟩
    simp only [decide_eq_true_eq, Option.any_eq_true] at hp
    obtain ⟨-, -, ⟨received, claimed⟩, hdec, htype⟩ := hp
    have hexit : received.type = MsgType.exit := by simpa using htype
    rcases hof conn hconn _ hdec with hon | hlogin | hcreate
    · exact hon
    · exact absurd (hexit.symm.trans hlogin) (by decide)
    · exact absurd (hexit.symm.trans hcreate) (by decide)
  | disconnect socketFd =>
    obtain ⟨hconn, hon⟩ := Option.filter_eq_some_iff.1 h
    exact ⟨hrunning hconn, fun _ => of_decide_eq_true hon⟩

/-- The check finds the record of the user. -/
private theorem check_next {e : Event} (hst : s.next (.check e) = some t) (hof : OfLoggedIn s.server e) : ∃ conn i u,
    s.server.conns e.socket = .running conn ∧ conn.serverConnectionStatus = .online ∧
      Record s.server.world.mem.users conn.source.bytes i u ∧
      t = s.setStage s.server e.socket (if u.inSession = .online then .leaving (some i) else .clearing (some i)) := by
  simp only [ThreadedState.next] at hst
  split at hst
  · rename_i conn hexiting hstage
    obtain ⟨hconn, hon⟩ := exiting_eq_some hexiting
    rcases record_or_none s.server.world.mem.users conn.source.bytes with hnone | ⟨i, u, hrec⟩
    · have hnone' : databaseSearchUser s.server.clear.mem.users conn.source.bytes = none := hnone
      simp [exitCheck, hnone', deref] at hst
    · have hrec' : Record s.server.clear.mem.users conn.source.bytes i u := hrec
      have hfound : databaseSearchUser s.server.clear.mem.users conn.source.bytes = some i := hrec.found
      simp only [exitCheck, run_bind, run_read, bind_ret, hfound, run_deref hrec'.get, run_pure, decide_eq_true_eq,
        Option.some.injEq] at hst
      exact ⟨conn, i, u, hconn, hon hof, hrec, hst.symm⟩
  · cases hst

end Steps

private theorem Served.outside_of_leave {m m' : Memory} {socketFd i : Nat} {conn : Conn} {received : Message}
    {claimed : CStr maxName} {r : Option Conn} {u : User} (h : Served socketFd conn received claimed m r m')
    (htype : received.type = MsgType.leaveSess) (hplaced : ∀ u ∈ m.users, u.Placed)
    (hrec : Record m.users conn.source.bytes i u) :
    r = some conn ∧ ∃ u', Record m'.users conn.source.bytes i u' ∧ u'.inSession = .offline := by
  have hother : ∀ {type : UInt32} {P : Prop}, received.type = type → type ≠ MsgType.leaveSess → P := by
    intro type P h hne
    exact absurd (h.symm.trans htype) hne
  cases h with
  | @leftOut j v _ hv hin =>
    obtain ⟨rfl, rfl⟩ := hv.unique hrec
    exact ⟨rfl, v, hv, hin⟩
  | @leftReserved j v _ hv hin hid => exact absurd hid (hplaced v hv.mem hin)
  | @left j v _ hv hin hid =>
    obtain ⟨rfl, rfl⟩ := hv.unique hrec
    obtain ⟨v', hv', hleave⟩ := hv.pointwise (leaves_leftTable hv hin hid) fun _ _ _ h => h.name_eq
    refine ⟨rfl, v', hv', ?_⟩
    cases hleave with
    | own _ _ _ => rfl
    | same h => exact absurd hv.found h
    | last h =>
      obtain ⟨k, own, hown, -, -, hne, -⟩ := h
      exact absurd (hv.unique hown).1 hne
  | answered h _ _ =>
    rw [htype] at h
    cases h
  | echoed h => exact absurd (by simp [htype, requests]) h
  | loggedIn h _ _ => exact hother h (by decide)
  | registered h _ _ _ => exact hother h (by decide)
  | exited h _ => exact hother h (by decide)
  | created h _ _ _ _ => exact hother h (by decide)
  | joined h _ _ _ _ => exact hother h (by decide)
  | relayed h _ _ => exact hother h (by decide)
  | kicked h _ _ _ => exact hother h (by decide)
  | promoted h _ _ _ => exact hother h (by decide)

/-- A user whose thread has left the session, or has not found it in one, is in none. -/
private theorem outside_of_leave {s t : ServerState} {socketFd i : Nat} {conn conn' : Conn} {u : User}
    (hplaced : ∀ u ∈ s.world.mem.users, u.Placed) (hconn : s.conns socketFd = .running conn)
    (hrec : Record s.world.mem.users conn.source.bytes i u) (hnext : s.next (.recv socketFd leaveChunk) = some t)
    (hconn' : t.conns socketFd = .running conn') :
    conn' = conn ∧ ∃ u', Record t.world.mem.users conn.source.bytes i u' ∧ u'.inSession = .offline := by
  obtain ⟨received, claimed, hdec, htype, -⟩ := decode_leaveChunk
  cases ServerState.turn hnext with
  | @served _ _ c received' claimed' r w hc hdec' hrun hserved =>
    obtain rfl : c = conn := Slot.running.inj (hc.symm.trans hconn)
    obtain ⟨rfl, rfl⟩ := Prod.mk.inj (Option.some.inj (hdec'.symm.trans hdec))
    have hslot : slotOf r = .running conn' := by
      rw [← hconn']
      simp [ServerState.setConn]
    have hrec' : Record s.clear.mem.users c.source.bytes i u := hrec
    obtain ⟨rfl, hout⟩ := hserved.outside_of_leave htype hplaced hrec'
    exact ⟨(Slot.running.inj hslot).symm, hout⟩
  | recvWaits _ _ _ => simp [ServerState.setConn] at hconn'

private theorem ofLoggedIn_of_login (s : ServerState) (socketFd : Nat) {chunk : Bytes} (h : loginRequest chunk ≠ none) :
    OfLoggedIn s (.recv socketFd chunk) := by
  intro conn _ p hdec
  obtain ⟨⟨received, claimed⟩, hrequest⟩ := Option.ne_none_iff_exists'.1 h
  obtain ⟨hdec', htype⟩ := loginRequest_eq_some hrequest
  rw [Option.mem_def.1 hdec] at hdec'
  cases hdec'
  exact Or.inr (Or.inl htype)

section Run

variable {s t : ThreadedState} {a : ThreadStep} {e : Event}

private theorem Staged.setStage (h : Staged s) {socketFd : Nat} {stage : Stage} (hconn : ∀ conn,
    s.server.conns socketFd = .running conn → stage.Knows s.server conn) :
    Staged (s.setStage s.server socketFd stage) := by
  intro fd conn hfd
  change (Function.update s.stage socketFd stage fd).Knows s.server conn
  by_cases hsame : fd = socketFd
  · subst hsame
    rw [Function.update_self]
    exact hconn conn hfd
  · rw [Function.update_of_ne hsame]
    exact h fd conn hfd

private theorem Staged.event (h : Staged s) (howned : Owned s.server) (hof : OfLoggedIn s.server e)
    (hnext : s.server.next e = some t.server) (hstage : ∀ fd, fd ≠ e.socket → t.stage fd = s.stage fd)
    (hown : ∀ conn, t.server.conns e.socket = .running conn → (t.stage e.socket).Knows t.server conn) : Staged t := by
  intro fd conn hfd
  have hturn := ServerState.turn hnext
  by_cases hsame : fd = e.socket
  · subst hsame
    exact hown conn hfd
  · have hconn : s.server.conns fd = .running conn := by rw [← hturn.conns_ne (Ne.symm hsame), hfd]
    rw [hstage fd hsame]
    exact (h fd conn hconn).turn howned hof hturn hconn (Ne.symm hsame)

/-- A step does nothing to the server, or what one request does. -/
theorem Staged.next (h : Staged s) (howned : Owned s.server) (hplaced : ∀ u ∈ s.server.world.mem.users, u.Placed)
    (ho : Orderly s a) (hst : s.next a = some t) :
    Staged t ∧ (t.server = s.server ∨ ∃ e, Does s a e ∧ OfLoggedIn s.server e ∧ s.server.next e = some t.server) := by
  cases a with
  | turn e =>
    simp only [ThreadedState.next, Option.ite_none_right_eq_some, Option.map_eq_some_iff] at hst
    obtain ⟨⟨hready, -, -⟩, t', hnext, rfl⟩ := hst
    refine ⟨h.event howned ho.1 hnext (fun _ _ => rfl) fun conn _ => ?_, Or.inr ⟨e, .turn e, ho.1, hnext⟩⟩
    change (s.stage e.socket).Knows _ _
    rw [hready]
    trivial
  | verify socketFd chunk =>
    rcases verify_next hst with ⟨conn, received, claimed, hconn, -, hrequest, hpos, hlen, hcode, rfl⟩ |
      ⟨hrequest, hnext, hstage, hready⟩
    · obtain ⟨i, u, hrec, -, hpw⟩ := loginCode_success hcode
      exact ⟨h.setStage fun conn _ => ⟨hpos, hlen, received, i, u, hrequest, hrec, hpw⟩, Or.inl rfl⟩
    · have hof := ofLoggedIn_of_login s.server socketFd hrequest
      refine ⟨h.event howned hof hnext (fun _ _ => by rw [hstage]) fun conn _ => ?_,
        Or.inr ⟨_, .refused socketFd chunk hrequest, hof, hnext⟩⟩
      rw [hstage, Event.socket, hready]
      trivial
  | login socketFd =>
    obtain ⟨conn, chunk, claimed, hconn, hstage⟩ := login_enabled hst
    have hknows := h socketFd conn hconn
    rw [hstage] at hknows
    obtain ⟨hnext, hstage'⟩ := login_next hconn hstage hknows (ho claimed (by rw [hstage]; rfl)) hst
    have hrequest : loginRequest chunk ≠ none := by
      obtain ⟨-, -, received, i, u, hrequest, -⟩ := hknows
      simp [hrequest]
    have hof := ofLoggedIn_of_login s.server socketFd hrequest
    refine ⟨h.event howned hof hnext (fun fd hfd => ?_) fun conn' _ => ?_,
      Or.inr ⟨_, .login socketFd hstage hrequest, hof, hnext⟩⟩
    · rw [hstage']
      exact Function.update_of_ne hfd _ _
    · rw [hstage', Event.socket, Function.update_self]
      trivial
  | check e =>
    obtain ⟨conn, i, u, hconn, hon, hrec, rfl⟩ := check_next hst ho
    refine ⟨h.setStage fun conn' hconn' => ?_, Or.inl rfl⟩
    obtain rfl : conn' = conn := Slot.running.inj (hconn'.symm.trans hconn)
    split
    · exact ⟨hon, i, u, rfl, hrec⟩
    · rename_i hin
      exact ⟨hon, i, u, rfl, hrec, by cases hio : u.inSession <;> simp_all⟩
  | leave socketFd =>
    obtain ⟨conn, p, hconn, hstage⟩ := leave_enabled hst
    have hknows := h socketFd conn hconn
    rw [hstage] at hknows
    obtain ⟨hon, i, u, rfl, hrec⟩ := hknows
    obtain ⟨hnext, hstage'⟩ := leave_next hconn hstage hst
    have hof : OfLoggedIn s.server (.recv socketFd leaveChunk) := by
      intro c hc _ _
      obtain rfl := Slot.running_of_conn? hc hconn
      exact Or.inl hon
    refine ⟨h.event howned hof hnext (fun fd hfd => ?_) fun conn' hconn' => ?_,
      Or.inr ⟨_, .leave hconn hstage, hof, hnext⟩⟩
    · rw [hstage']
      exact Function.update_of_ne hfd _ _
    · rw [hstage', Event.socket, Function.update_self]
      obtain ⟨rfl, u', hrec', hout⟩ := outside_of_leave hplaced hconn hrec hnext hconn'
      exact ⟨hon, i, u', rfl, hrec', hout⟩
  | clear socketFd =>
    obtain ⟨conn, p, hconn, hstage⟩ := clear_enabled hst
    have hknows := h socketFd conn hconn
    rw [hstage] at hknows
    obtain ⟨hnext, hstage'⟩ := clear_next hconn hstage hknows hst
    have hof : OfLoggedIn s.server (.disconnect socketFd) := trivial
    refine ⟨h.event howned hof hnext (fun fd hfd => ?_) fun conn' _ => ?_,
      Or.inr ⟨_, .clear socketFd, hof, hnext⟩⟩
    · rw [hstage']
      exact Function.update_of_ne hfd _ _
    · rw [hstage', Event.socket, Function.update_self]
      trivial

end Run

/-! ### Runs of the threads -/

/-- Requests of connections that are logged in, none of which takes the reserved text as the name of a session. -/
def Ordinary (s : ServerState) (e : Event) : Prop := OfLoggedIn s e ∧ ReservedFree s e

/-- A request for neither of the two takes no name. -/
private theorem reservedFree_of_type {s : ServerState} {socketFd : Nat} {chunk : Bytes}
    (h : ∀ p, decode (recvBuffer chunk) = some p →
    p.1.type ≠ MsgType.join ∧ p.1.type ≠ MsgType.newSess) : ReservedFree s (.recv socketFd chunk) := by
  rintro conn - p hdec own - ⟨-, -, -, ⟨htype, -⟩ | ⟨htype, -⟩⟩
  · exact (h p hdec).1 htype
  · exact (h p hdec).2 htype

private theorem Does.reservedFree {s : ThreadedState} {a : ThreadStep} {e : Event} (h : Does s a e) (ho : Orderly s a) :
    ReservedFree s.server e := by
  have hlogin : ∀ {socketFd chunk}, loginRequest chunk ≠ none → ReservedFree s.server (.recv socketFd chunk) := by
    intro socketFd chunk hrequest
    refine reservedFree_of_type fun p hdec => ?_
    obtain ⟨⟨received, claimed⟩, hrequest⟩ := Option.ne_none_iff_exists'.1 hrequest
    obtain ⟨hdec', htype⟩ := loginRequest_eq_some hrequest
    rw [hdec] at hdec'
    cases hdec'
    rw [htype]
    exact ⟨by decide, by decide⟩
  cases h with
  | turn => exact ho.2
  | refused socketFd chunk hrequest => exact hlogin hrequest
  | login socketFd hstage hrequest => exact hlogin hrequest
  | leave hconn hstage =>
    refine reservedFree_of_type fun p hdec => ?_
    obtain ⟨received, claimed, hdec', htype, -⟩ := decode_leaveChunk
    rw [hdec] at hdec'
    cases hdec'
    rw [htype]
    exact ⟨by decide, by decide⟩
  | clear => trivial

theorem staged_of_reachable {s : ThreadedState} (hr : Reachable (threaded.when Orderly) s) :
    Reachable (server.when Ordinary) s.server ∧ Staged s := by
  induction hr with
  | @init s h =>
    refine ⟨.init h.1, fun fd conn _ => ?_⟩
    rw [h.2]
    trivial
  | @step s t a hr hst ih =>
    have howned := owned_of_reachable (ih.1.when_mono fun _ _ _ h => h.1)
    have hplaced := placed_of_reachable (ih.1.when_mono fun _ _ _ h => h.2)
    obtain ⟨hstaged, hsame | ⟨e, hdoes, hof, hnext⟩⟩ := ih.2.next howned hplaced hst.1 hst.2
    · rw [hsame]
      exact ⟨ih.1, hstaged⟩
    · exact ⟨ih.1.step ⟨⟨hof, hdoes.reservedFree hst.1⟩, hnext⟩, hstaged⟩

/-- Requests can be thought of as served one after another.  In every run of the threads in which the requests come from
connections that are logged in, none takes the reserved text as the name of a session, and no login is overtaken by
another one to its account, what happens to the server is a run of such requests served one at a time: an exit that other
threads interrupt is a `LEAVE_SESS` and, later, the end of the connection. -/
theorem serialized : Simulates (threaded.when Orderly) (server.when fun s e => OfLoggedIn s e ∧ ReservedFree s e)
    fun s a => a = s.server := by
  refine .of_view (fun s h => h.1) fun s a t hr hst => ?_
  obtain ⟨hserver, hstaged⟩ := staged_of_reachable hr
  have howned := owned_of_reachable (hserver.when_mono fun _ _ _ h => h.1)
  have hplaced := placed_of_reachable (hserver.when_mono fun _ _ _ h => h.2)
  obtain ⟨-, hsame | ⟨e, hdoes, hof, hnext⟩⟩ := hstaged.next howned hplaced hst.1 hst.2
  · exact Or.inl hsame
  · exact Or.inr ⟨e, ⟨hof, hdoes.reservedFree hst.1⟩, hnext⟩

/-! ### Exits that nobody interrupts -/

/-- The requests come from connections that are logged in and are let through by the guards of the client, no login is
overtaken, and nobody kicks a user whose thread is about to leave. -/
def Polite (s : ThreadedState) (a : ThreadStep) : Prop :=
  Orderly s a ∧ match a with
    | .turn e => Legitimate s.server e ∧ ∀ fd conn p, s.server.conns fd = .running conn → s.stage fd = .leaving p →
        ∀ name, askedAction s.server e ≠ some (.kick name conn.source.bytes)
    | .check e => Legitimate s.server e
    | _ => True

/-- A thread that is about to leave has its user in a session. -/
def Seated (s : ThreadedState) : Prop := ∀ fd conn p, s.server.conns fd = .running conn → s.stage fd = .leaving p →
  ∃ i u, Record s.server.world.mem.users conn.source.bytes i u ∧ u.inSession = .online

private theorem Seated.event {s t : ThreadedState} {e : Event} (h : Seated s) (hstaged : Staged s)
    (howned : Owned s.server)
    (hof : OfLoggedIn s.server e) (hnext : s.server.next e = some t.server)
    (hstage : ∀ fd, fd ≠ e.socket → t.stage fd = s.stage fd) (hown : ∀ p, t.stage e.socket ≠ .leaving p)
    (hkick : ∀ fd conn p, s.server.conns fd = .running conn → s.stage fd = .leaving p →
      ∀ name, askedAction s.server e ≠ some (.kick name conn.source.bytes)) : Seated t := by
  intro fd conn p hfd hleaving
  have hturn := ServerState.turn hnext
  have hne : fd ≠ e.socket := by
    rintro rfl
    exact hown p hleaving
  have hconn : s.server.conns fd = .running conn := by rw [← hturn.conns_ne (Ne.symm hne), hfd]
  rw [hstage fd hne] at hleaving
  obtain ⟨i, u, hrec, hin⟩ := h fd conn p hconn hleaving
  have hknows := hstaged fd conn hconn
  rw [hleaving] at hknows
  obtain ⟨u', hrec', hbystands⟩ := bystands howned hof hturn hconn (Ne.symm hne) hknows.1 hrec
  refine ⟨i, u', hrec', ?_⟩
  cases hbystands with
  | same => exact hin
  | role _ => exact hin
  | kick hasked =>
    obtain ⟨sender, hasked⟩ := hasked
    exact absurd hasked (hkick fd conn p hconn hleaving sender)

/-- The thread that handles the event comes to a stage in which it leaves no session. -/
private theorem Seated.moved {s t : ThreadedState} {e : Event} {stage : Stage} (h : Seated s) (hstaged : Staged s)
    (howned : Owned s.server) (hof : OfLoggedIn s.server e) (hnext : s.server.next e = some t.server)
    (hstage : t.stage = Function.update s.stage e.socket stage) (hown : ∀ p, stage ≠ .leaving p)
    (hkick : ∀ name target, askedAction s.server e ≠ some (.kick name target)) : Seated t := by
  refine h.event hstaged howned hof hnext (fun fd hfd => ?_) (fun p => ?_) fun _ _ _ _ _ name => hkick _ _
  · rw [hstage]
    exact Function.update_of_ne hfd _ _
  · rw [hstage, Function.update_self]
    exact hown p

private theorem Seated.setStage {s : ThreadedState} (h : Seated s) {socketFd : Nat} {stage : Stage}
    (hstage : ∀ conn p, s.server.conns socketFd = .running conn → stage = .leaving p →
      ∃ i u, Record s.server.world.mem.users conn.source.bytes i u ∧ u.inSession = .online) :
    Seated (s.setStage s.server socketFd stage) := by
  intro fd conn p hconn hleaving
  change Function.update s.stage socketFd stage fd = .leaving p at hleaving
  by_cases hfd : fd = socketFd
  · subst hfd
    rw [Function.update_self] at hleaving
    exact hstage conn p hconn hleaving
  · rw [Function.update_of_ne hfd] at hleaving
    exact h fd conn p hconn hleaving

section Polite

variable {s t : ThreadedState} {a : ThreadStep} {socketFd : Nat} {chunk : Bytes}

private theorem type_of_kick {source claimed : Bytes} {received : Message} {name target : Bytes}
    (h : requestedAction source claimed received = some (.kick name target)) : received.type = MsgType.kick := by
  unfold requestedAction at h
  dsimp only at h
  split_ifs at h
  all_goals first | assumption | cases h

/-- A message of another type kicks nobody. -/
private theorem not_kick {s : ServerState} (h : ∀ p, decode (recvBuffer chunk) = some p → p.1.type ≠ MsgType.kick)
    (name target : Bytes) : askedAction s (.recv socketFd chunk) ≠ some (.kick name target) := by
  intro hasked
  simp only [askedAction, Option.bind_eq_some_iff] at hasked
  obtain ⟨conn, -, p, hdec, hkick⟩ := hasked
  exact h p hdec (type_of_kick hkick)

private theorem guarded_of_login {own : User} {received : Message} (htype : received.type = MsgType.login) :
    Guarded own received := by
  unfold Guarded
  rw [htype]
  refine ⟨fun h => ?_, fun h => ?_, fun h => ?_, fun h => ?_⟩
  · exact absurd h (by decide)
  · exact absurd h (by decide)
  · exact absurd h (by decide)
  · exact absurd h (by decide)

private theorem type_of_login (h : loginRequest chunk ≠ none) (p : Message × CStr maxName)
    (hdec : decode (recvBuffer chunk) = some p) : p.1.type = MsgType.login := by
  obtain ⟨⟨received, claimed⟩, hrequest⟩ := Option.ne_none_iff_exists'.1 h
  obtain ⟨hdec', htype⟩ := loginRequest_eq_some hrequest
  rw [hdec] at hdec'
  cases hdec'
  exact htype

private theorem legitimate_of_login (s : ServerState) (h : loginRequest chunk ≠ none) :
    Legitimate s (.recv socketFd chunk) :=
  ⟨ofLoggedIn_of_login s socketFd h, fun _ _ p hdec _ _ => guarded_of_login (type_of_login h p hdec)⟩

private theorem type_of_leaveChunk (p : Message × CStr maxName) (hdec : decode (recvBuffer leaveChunk) = some p) :
    p.1.type = MsgType.leaveSess := by
  obtain ⟨received, claimed, hdec', htype, -⟩ := decode_leaveChunk
  rw [hdec] at hdec'
  cases hdec'
  exact htype

theorem Seated.next (h : Seated s) (hstaged : Staged s) (howned : Owned s.server)
    (hp : Polite s a) (hst : s.next a = some t) :
    Seated t ∧ (t.server = s.server ∨ ∃ e, Legitimate s.server e ∧ s.server.next e = some t.server) := by
  cases a with
  | turn e =>
    simp only [ThreadedState.next, Option.ite_none_right_eq_some, Option.map_eq_some_iff] at hst
    obtain ⟨⟨hready, -, -⟩, t', hnext, rfl⟩ := hst
    obtain ⟨ho, hlegit, hkick⟩ := hp
    refine ⟨h.event hstaged howned ho.1 hnext (fun _ _ => rfl) (fun p => ?_) hkick, Or.inr ⟨e, hlegit, hnext⟩⟩
    change s.stage e.socket ≠ _
    rw [hready]
    exact fun h => by cases h
  | verify socketFd chunk =>
    rcases verify_next hst with ⟨conn, received, claimed, -, -, -, -, -, -, rfl⟩ | ⟨hrequest, hnext, hstage, hready⟩
    · exact ⟨h.setStage fun _ _ _ hleaving => (by cases hleaving), Or.inl rfl⟩
    · have hlegit : Legitimate s.server (.recv socketFd chunk) := legitimate_of_login s.server hrequest
      refine ⟨h.event hstaged howned hlegit.1 hnext (fun _ _ => by rw [hstage]) (fun p => ?_)
        fun _ _ _ _ _ name => not_kick (fun p hdec => ?_) _ _, Or.inr ⟨_, hlegit, hnext⟩⟩
      · rw [hstage, Event.socket, hready]
        exact fun h => by cases h
      · rw [type_of_login hrequest p hdec]
        decide
  | login socketFd =>
    obtain ⟨conn, chunk, claimed, hconn, hstage⟩ := login_enabled hst
    have hknows := hstaged socketFd conn hconn
    rw [hstage] at hknows
    obtain ⟨hnext, hstage'⟩ := login_next hconn hstage hknows (hp.1 claimed (by rw [hstage]; rfl)) hst
    have hrequest : loginRequest chunk ≠ none := by
      obtain ⟨-, -, received, i, u, hrequest, -⟩ := hknows
      simp [hrequest]
    have hlegit : Legitimate s.server (.recv socketFd chunk) := legitimate_of_login s.server hrequest
    refine ⟨h.moved hstaged howned hlegit.1 hnext hstage' (fun p hleaving => ?_) (not_kick fun p hdec => ?_),
      Or.inr ⟨_, hlegit, hnext⟩⟩
    · cases hleaving
    · rw [type_of_login hrequest p hdec]
      decide
  | check e =>
    obtain ⟨conn, i, u, hconn, hon, hrec, rfl⟩ := check_next hst hp.1
    refine ⟨h.setStage fun conn' p hconn' hleaving => ?_, Or.inl rfl⟩
    obtain rfl : conn' = conn := Slot.running.inj (hconn'.symm.trans hconn)
    by_cases hin : u.inSession = .online
    · exact ⟨i, u, hrec, hin⟩
    · rw [if_neg hin] at hleaving
      cases hleaving
  | leave socketFd =>
    obtain ⟨conn, p, hconn, hstage⟩ := leave_enabled hst
    obtain ⟨i, u, hrec, hin⟩ := h socketFd conn p hconn hstage
    have hknows := hstaged socketFd conn hconn
    rw [hstage] at hknows
    obtain ⟨hnext, hstage'⟩ := leave_next hconn hstage hst
    have hlegit : Legitimate s.server (.recv socketFd leaveChunk) := by
      refine ⟨fun c hc _ _ => ?_, fun c hc q hdec own hown => ?_⟩
      · obtain rfl := Slot.running_of_conn? hc hconn
        exact Or.inl hknows.1
      · obtain rfl := Slot.running_of_conn? hc hconn
        obtain rfl := Option.some.inj (hown.symm.trans (ownRecord_eq hrec))
        unfold Guarded
        rw [type_of_leaveChunk q hdec]
        refine ⟨fun h => ?_, fun h => ?_, fun _ => hin, fun h => ?_⟩
        · exact absurd h (by decide)
        · exact absurd h (by decide)
        · exact absurd h (by decide)
    refine ⟨h.moved hstaged howned hlegit.1 hnext hstage' (fun p hleaving => ?_) (not_kick fun p hdec => ?_),
      Or.inr ⟨_, hlegit, hnext⟩⟩
    · cases hleaving
    · rw [type_of_leaveChunk p hdec]
      decide
  | clear socketFd =>
    obtain ⟨conn, p, hconn, hstage⟩ := clear_enabled hst
    have hknows := hstaged socketFd conn hconn
    rw [hstage] at hknows
    obtain ⟨hnext, hstage'⟩ := clear_next hconn hstage hknows hst
    have hlegit : Legitimate s.server (.disconnect socketFd) := ⟨trivial, trivial⟩
    refine ⟨h.moved hstaged howned hlegit.1 hnext hstage' (fun p hleaving => ?_) (fun name target => ?_),
      Or.inr ⟨_, hlegit, hnext⟩⟩
    · cases hleaving
    · simp only [askedAction, hconn, Slot.conn?, Option.bind_some]
      split
      · exact fun h => by cases h
      · exact fun h => by cases h

end Polite

theorem seated_of_reachable {s : ThreadedState} (hr : Reachable (threaded.when Polite) s) :
    Reachable (server.when Legitimate) s.server ∧ Seated s := by
  induction hr with
  | @init s h =>
    refine ⟨.init h.1, fun fd conn p _ hleaving => ?_⟩
    rw [h.2] at hleaving
    cases hleaving
  | @step s t a hr hst ih =>
    obtain ⟨hserver, hstaged⟩ := staged_of_reachable (hr.when_mono fun _ _ _ h => h.1)
    have howned := owned_of_reachable (hserver.when_mono fun _ _ _ h => h.1)
    obtain ⟨hseated, hsame | ⟨e, hlegit, hnext⟩⟩ := ih.2.next hstaged howned hst.1 hst.2
    · rw [hsame]
      exact ⟨ih.1, hseated⟩
    · exact ⟨ih.1.step ⟨hlegit, hnext⟩, hseated⟩

/-- The threads are a session manager.  In every run of the threads whose requests the guards of the clients let through,
in which no login is overtaken and no user is kicked between the check of its exit and the leaving, no thread waits for
a mutex, both are free after every step, and the accounts and the seats are those of a run of the manager. -/
theorem threads_manage {s : ThreadedState} (hr : Reachable (threaded.when Polite) s) :
    (∀ fd, s.server.conns fd ≠ .stuck) ∧ s.server.world.Free ∧
      Reachable (manager Bytes Bytes Bytes) (managerOf s.server.world.mem.users) := by
  have hserver := (seated_of_reachable hr).1
  obtain ⟨_, hmanager, rfl⟩ := simulates_manager.reachable hserver
  exact ⟨not_stuck hserver, (manageable_of_reachable hserver).free, hmanager⟩

/-- Runs in which nobody is kicked at all. -/
def KicksNobody (s : ThreadedState) (a : ThreadStep) : Prop :=
  Orderly s a ∧ match a with
    | .turn e => Legitimate s.server e ∧ ∀ asked ∈ askedAction s.server e, ¬ asked.isKick
    | .check e => Legitimate s.server e
    | _ => True

instance (s : ThreadedState) : DecidablePred (KicksNobody s)
  | .turn e => inferInstanceAs (Decidable (Orderly s (.turn e) ∧
      Legitimate s.server e ∧ ∀ asked ∈ askedAction s.server e, ¬ asked.isKick))
  | .check e => inferInstanceAs (Decidable (Orderly s (.check e) ∧ Legitimate s.server e))
  | .login socketFd => inferInstanceAs (Decidable (Orderly s (.login socketFd) ∧ True))
  | .verify socketFd chunk => inferInstanceAs (Decidable (Orderly s (.verify socketFd chunk) ∧ True))
  | .leave socketFd => inferInstanceAs (Decidable (Orderly s (.leave socketFd) ∧ True))
  | .clear socketFd => inferInstanceAs (Decidable (Orderly s (.clear socketFd) ∧ True))

private theorem polite_of_kicksNobody {s : ThreadedState} {a : ThreadStep} (h : KicksNobody s a) : Polite s a := by
  refine ⟨h.1, ?_⟩
  cases a with
  | turn e => exact ⟨h.2.1, fun _ _ _ _ _ name hasked => h.2.2 _ hasked rfl⟩
  | _ => exact h.2

/-- The server with its threads, on an empty database file. -/
def threadsStarted : ThreadedState := ⟨started [] [], fun _ => .ready⟩

theorem threaded_init : threaded.init threadsStarted := ⟨⟨[], [], ⟨1, rfl⟩, rfl⟩, rfl⟩

/-- `ann` is in the session of `bob`, whose server has found that the connection of `ann` is closed. -/
def annExits : List ThreadStep :=
  [.turn (.accept 3 serverName), .turn (.recv 3 (ascii "13:1:bob:x")), .turn (.recv 3 (ascii "8:1:bob:s")),
    .turn (.accept 4 serverName), .turn (.recv 4 (ascii "13:1:ann:x")), .turn (.recv 4 (ascii "4:1:ann:s")),
    .check (.disconnect 4)]

/-- `bob` leaves before `ann` does. -/
theorem threads_manage_exit : ∃ s, runFrom (guarded KicksNobody ThreadedState.next) threadsStarted
      (annExits ++ [.turn (.recv 3 (ascii "7:0:bob:")), .leave 4, .clear 4]) = some s ∧
    (∀ fd, s.server.conns fd ≠ .stuck) ∧ s.server.world.Free ∧
      Reachable (manager Bytes Bytes Bytes) (managerOf s.server.world.mem.users) := by
  let steps : List ThreadStep := annExits ++ [.turn (.recv 3 (ascii "7:0:bob:")), .leave 4, .clear 4]
  obtain ⟨s, hs⟩ : ∃ s, runFrom (guarded KicksNobody ThreadedState.next) threadsStarted steps = some s :=
    Option.isSome_iff_exists.1 (by decide)
  have hr : Reachable (threaded.when KicksNobody) s := reachable_guarded (fun _ _ _ h => h) threaded_init hs
  exact ⟨s, hs, threads_manage (hr.when_mono fun _ _ _ h => polite_of_kicksNobody h)⟩

end Conferencing
