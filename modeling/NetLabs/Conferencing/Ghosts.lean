import NetLabs.Conferencing.Membership

/-!
# Ghost logins

The thread of a connection remembers one name and one flag, which every login overwrites.  When it ends it logs out the
account that it remembers.  As long as no connection logs in twice, and no session is called like no session, that is
every account that it has put online (`no_ghost_logins`).
-/

namespace Conferencing

open CText LockProg Transition

/-! ### Logging in once -/

/-- The server accepts the message as a login or as a registration. -/
def Accepts (s : ServerState) (received : Message) (claimed : CStr maxName) : Prop :=
  s.world.held .userList = false ∧
    (received.type = MsgType.login ∧
        loginCode s.world.mem.users claimed.bytes (cstr received.data.bytes) = .successLogin ∨
      received.type = MsgType.create ∧ s.world.held .rw = false ∧ s.world.mem.users.length < maxUserCount ∧
        databaseSearchUser s.world.mem.users claimed.bytes = none)

instance (s : ServerState) (received : Message) (claimed : CStr maxName) : Decidable (Accepts s received claimed) := by
  unfold Accepts
  infer_instance

/-- The event is no login of a connection that is logged in. -/
def LogsInOnce (s : ServerState) : Event → Prop
  | .recv socketFd chunk => ∀ conn ∈ (s.conns socketFd).conn?, ∀ p ∈ decode (recvBuffer chunk),
      conn.serverConnectionStatus = .online → ¬ Accepts s p.1 p.2
  | _ => True

instance (s : ServerState) : DecidablePred (LogsInOnce s)
  | .accept _ _ => inferInstanceAs (Decidable True)
  | .recv socketFd chunk => inferInstanceAs (Decidable (∀ conn ∈ (s.conns socketFd).conn?,
      ∀ p ∈ decode (recvBuffer chunk), conn.serverConnectionStatus = .online → ¬ Accepts s p.1 p.2))
  | .disconnect _ => inferInstanceAs (Decidable True)

theorem acknowledged_eq_some {t : ServerState} {socketFd : Nat} {chunk : Bytes} {received : Message}
    {claimed : CStr maxName} {request reply : UInt32} {p : CStr maxName × Bytes}
    (hdec : decode (recvBuffer chunk) = some (received, claimed))
    (h : acknowledged request reply (.recv socketFd chunk) t = some p) :
    p.1 = claimed ∧ received.type = request ∧ (socketFd, wireOf reply claimed none) ∈ t.world.mem.outbox := by
  rw [acknowledged_recv hdec, Option.ite_none_right_eq_some] at h
  obtain ⟨⟨htype, hsent⟩, hp⟩ := h
  exact ⟨(congrArg Prod.fst (Option.some.inj hp)).symm, htype, hsent⟩

/-- What is answered with `LO_ACK` or `RG_ACK` has been accepted. -/
theorem accepts_of_login {s t : ServerState} {e : Event} {name : CStr maxName} (hturn : Turn s e t)
    (h : loggedInBy e t = some name) : ∃ socketFd chunk conn received, e = .recv socketFd chunk ∧
      s.conns socketFd = .running conn ∧ decode (recvBuffer chunk) = some (received, name) ∧
      Accepts s received name := by
  obtain ⟨p, hp, rfl⟩ := Option.map_eq_some_iff.1 h
  have hempty : s.clear.mem.outbox = [] := rfl
  cases hturn with
  | accepted _ _ => cases h
  | @served socketFd chunk conn received claimed r w hconn hdec hrun _ =>
    rw [serve_eq hdec] at hrun
    rcases Option.or_eq_some_iff.1 hp with hp | ⟨-, hp⟩
    · obtain ⟨hname, htype, hsent⟩ := acknowledged_eq_some hdec hp
      subst hname
      refine ⟨socketFd, chunk, conn, received, rfl, hconn, hdec, ?_⟩
      rcases (verification_yields htype (recvBuffer chunk)).of_ret hrun with ⟨i, u, -, -, hul, hcode, -⟩ | ⟨-, data, hmem⟩
      · exact ⟨hul, Or.inl ⟨htype, hcode⟩⟩
      · apply absurd hsent
        change _ ∉ w.mem.outbox
        rw [hmem]
        exact not_mem_sent hempty (by decide)
    · obtain ⟨hname, htype, hsent⟩ := acknowledged_eq_some hdec hp
      subst hname
      refine ⟨socketFd, chunk, conn, received, rfl, hconn, hdec, ?_⟩
      rcases (registration_yields htype (recvBuffer chunk)).of_ret hrun with
        ⟨password, -, hroom, hnew, hul, hrw, -⟩ | ⟨-, data, hmem⟩
      · exact ⟨hul, Or.inr ⟨htype, hrw, hroom, hnew⟩⟩
      · apply absurd hsent
        change _ ∉ w.mem.outbox
        rw [hmem]
        exact not_mem_sent hempty (by decide)
  | recvWaits _ _ hmem =>
    simp only [acknowledged_waits hmem, Option.or_none] at hp
    cases hp
  | disconnected _ _ _ => cases h
  | disconnectWaits _ _ _ => cases h

/-! ### The accounts of a connection -/

/-- The accounts that each socket has put online since its connection was accepted. -/
def logLogins (_ : ServerState) (e : Event) (t : ServerState) (logins : Nat → List (CStr maxName)) :
    Nat → List (CStr maxName) :=
  match e with
  | .accept socketFd _ => Function.update logins socketFd []
  | _ => Function.update logins e.socket (logins e.socket ++ (loggedInBy e t).toList)

/-- A connection has put online the account it acts for, and no other. -/
def LoginsKnown (s : ServerState) (fd : Nat) (logins : List (CStr maxName)) : Prop :=
  ∀ conn, s.conns fd = .running conn →
    logins = if conn.serverConnectionStatus = .online then [conn.source] else []

/-- The account is offline and in no session, and it can be logged in again. -/
def LoggedOut (s : ServerState) (name : CStr maxName) : Prop :=
  ∃ i u, Record s.world.mem.users name.bytes i u ∧ u.status = .offline ∧ u.inSession = .offline ∧
    u.sessionId = notInSession ∧ s.world.held .userList = false ∧
    loginCode s.world.mem.users name.bytes u.password.bytes = .successLogin

section Step

variable {s t : ServerState} {e : Event} {logins : Nat → List (CStr maxName)}

private theorem loginsKnown_turn {fd : Nat} (h : LoginsKnown s fd (logins fd)) (hturn : Turn s e t)
    (honce : e.socket = fd → LogsInOnce s e) : LoginsKnown t fd (logLogins s e t logins fd) := by
  intro conn hconn
  by_cases hfd : fd = e.socket
  · subst hfd
    -- what a connection that logs in had put online before
    have hfirst : ∀ claimed, loggedInBy e t = some claimed → logLogins s e t logins e.socket = [claimed] := by
      intro claimed hby
      obtain ⟨socketFd, chunk, conn, received, rfl, hold, hdec, haccepts⟩ := accepts_of_login hturn hby
      have hoff : conn.serverConnectionStatus = .offline := by
        cases hstatus : conn.serverConnectionStatus with
        | offline => rfl
        | online => exact absurd haccepts (honce rfl conn (by rw [hold]; rfl) _ hdec hstatus)
      have hnone : logins socketFd = _ := h conn hold
      rw [hoff] at hnone
      simp [logLogins, Event.socket, hby, hnone]
    rcases hturn.login_cases with ⟨claimed, hlogin⟩ | ⟨claimed, password, hreg⟩ | hneither
    · obtain rfl : ⟨claimed, .online⟩ = conn := Slot.running.inj (hlogin.conn.symm.trans hconn)
      exact hfirst claimed hlogin.loggedIn
    · obtain rfl : ⟨claimed, .online⟩ = conn := Slot.running.inj (hreg.conn.symm.trans hconn)
      exact hfirst claimed hreg.loggedIn
    · rcases hneither.conn conn hconn with hold | ⟨hoff, socketFd, garbage, rfl⟩
      · have hkept : logLogins s e t logins e.socket = logins e.socket := by
          cases e with
          | accept socketFd garbage =>
            cases hturn with
            | accepted _ hclosed => cases hclosed.symm.trans hold
          | recv socketFd chunk => simp [logLogins, hneither.loggedIn]
          | disconnect socketFd => simp [logLogins, hneither.loggedIn]
        rw [hkept, h conn hold]
      · simp [logLogins, Event.socket, hoff]
  · rw [hturn.conns_ne (Ne.symm hfd)] at hconn
    rw [← h conn hconn]
    cases e <;> exact Function.update_of_ne hfd _ _

/-- The end of a thread leaves `user_list_mutex` as it found it, free. -/
private theorem free_of_exit {name : CStr maxName} {w w' : World Mutex Memory} {i : Nat} {u : User}
    (hrec : Record w.mem.users name.bytes i u) (hrun : serverSideUserExit name w = .ret () w') :
    w'.held .userList = false := by
  rw [run_serverSideUserExit hrec] at hrun
  split at hrun
  · cases hrun
  · rename_i hul
    have hfree : w.held .userList = false := Bool.eq_false_iff.2 hul
    split at hrun
    · cases hrun
      exact hfree
    · split at hrun
      · cases hrun
      · split at hrun
        · cases hrun
          simpa using hfree
        · cases hrun
          exact hfree

/-- The end of a thread logs out the account that it remembers, unless the record says a session that is none. -/
private theorem loggedOut_iff_of_exit {name : CStr maxName} {w w' : World Mutex Memory} {i : Nat} {u : User}
    (hrec : Record w.mem.users name.bytes i u) (hconsistent : u.Consistent)
    (hrun : serverSideUserExit name w = .ret () w') (hw : t.world = w') : LoggedOut t name ↔ u.Placed := by
  subst hw
  obtain ⟨u', hrec', hquit⟩ := hrec.pointwise ((exit_yields name w).of_ret hrun).quits fun _ _ _ h => h.name_eq
  have hiff : u'.status = .offline ∧ u'.inSession = .offline ∧ u'.sessionId = notInSession ↔ u.Placed := by
    cases hquit with
    | same hne => exact absurd hrec.found hne
    | out _ hout =>
      constructor
      · rintro ⟨-, hin, -⟩
        exact placed_of_offline hin
      · intro hplaced
        have hin : u.inSession = .offline := hout.elim id hplaced.no_session
        refine ⟨rfl, hin, ?_⟩
        by_contra hid
        cases hin.symm.trans (hconsistent.session hid)
    | own _ _ hid => exact iff_of_true ⟨rfl, rfl, rfl⟩ fun _ => hid
    | last h =>
      obtain ⟨j, own, hown, -, -, hne, -⟩ := h
      exact absurd (hrec.unique hown).1 hne
  rw [← hiff]
  constructor
  · rintro ⟨j, v, hv, hoff, hin, hid, -⟩
    obtain ⟨-, rfl⟩ := hrec'.unique hv
    exact ⟨hoff, hin, hid⟩
  · rintro ⟨hoff, hin, hid⟩
    exact ⟨i, u', hrec', hoff, hin, hid, free_of_exit hrec hrun, loginCode_offline hrec' hoff⟩

end Step

/-- No ghost logins.  In every run in which a connection that is logged in is not logged in again, whatever the other
connections do: when its thread returns, every account that it has put online is offline, in no session, and can be
logged in again, if and only if the record of its account did not say a session that is none. -/
theorem no_ghost_logins {s t : ServerState} {logins : Nat → List (CStr maxName)} {e : Event}
    (hr : Reachable ((server.when fun s e' => e'.socket = e.socket → LogsInOnce s e').recording noLogins logLogins)
      (s, logins)) (hnext : s.next e = some t) (hclosed : t.conns e.socket = .closed) :
    (∀ name ∈ logins e.socket, LoggedOut t name) ↔
      ∀ conn, s.conns e.socket = .running conn → conn.serverConnectionStatus = .online →
        ∀ own ∈ ownRecord s.world.mem.users conn.source.bytes, own.Placed := by
  have hknown : ∀ p : ServerState × (Nat → List (CStr maxName)),
      Reachable ((server.when fun s e' => e'.socket = e.socket → LogsInOnce s e').recording noLogins logLogins) p →
      LoginsKnown p.1 e.socket (p.2 e.socket) := by
    intro p hr
    induction hr with
    | @init p h =>
      obtain ⟨⟨file, users, -, hstart⟩, -⟩ := h
      rw [hstart]
      intro conn hconn
      cases hconn
    | @step p q e _ hst ih =>
      rw [hst.2]
      exact loginsKnown_turn ih (ServerState.turn hst.1.2) hst.1.1
  have hreach : Reachable server s := hr.of_recording.of_when
  -- the thread that ends remembers the account it has put online, if there is one
  have hout : ∀ conn, s.conns e.socket = .running conn →
      (conn.serverConnectionStatus = .online → ∃ w, serverSideUserExit conn.source s.clear = .ret () w ∧ t.world = w) →
      ((∀ name ∈ logins e.socket, LoggedOut t name) ↔
        ∀ conn, s.conns e.socket = .running conn → conn.serverConnectionStatus = .online →
          ∀ own ∈ ownRecord s.world.mem.users conn.source.bytes, own.Placed) := by
    intro conn hconn hexit
    have hlogins : logins e.socket = _ := hknown (s, logins) hr conn hconn
    rw [hlogins, hconn]
    simp only [Slot.running.injEq, forall_eq']
    cases hstatus : conn.serverConnectionStatus with
    | offline => simp
    | online =>
      obtain ⟨⟨i, u, hrec⟩, -⟩ := record_of_reachable hreach hconn hstatus
      obtain ⟨w, hrun, hw⟩ := hexit hstatus
      have hiff := loggedOut_iff_of_exit (w := s.clear) hrec (consistent_of_reachable hreach u hrec.mem) hrun hw
      simpa [ownRecord_eq hrec] using hiff
  cases ServerState.turn hnext with
  | accepted _ _ => simp [Event.socket, ServerState.setConn] at hclosed
  | @served socketFd chunk conn received claimed r w hconn hdec hrun hserved =>
    apply hout conn hconn
    intro _
    have hnone : r = none := by
      cases r with
      | none => rfl
      | some c => simp [Event.socket, ServerState.setConn, slotOf] at hclosed
    subst hnone
    rw [serve_exit hdec hserved.type_of_closes, Outcome.bind_eq_ret] at hrun
    obtain ⟨⟨⟩, w', hexit, hpure⟩ := hrun
    cases hpure
    exact ⟨w, hexit, rfl⟩
  | recvWaits _ _ _ => simp [Event.socket, ServerState.setConn] at hclosed
  | @disconnected socketFd conn w hconn hrun _ =>
    apply hout conn hconn
    intro hon
    simp only [serveDisconnect, hon, ↓reduceIte, run_bind, Outcome.bind_eq_ret] at hrun
    obtain ⟨⟨⟩, w', hexit, hpure⟩ := hrun
    cases hpure
    exact ⟨w, hexit, rfl⟩
  | disconnectWaits _ _ _ => simp [Event.socket, ServerState.setConn] at hclosed

/-- `bob` registers and exits. -/
theorem no_ghost_logins_bob : ∃ (s t : ServerState) (logins : Nat → List (CStr maxName)),
    afterEventsWhen (fun s e => e.socket = 3 → LogsInOnce s e)
      [.accept 3 ⟨[], by decide, by decide⟩, .recv 3 (ascii "13:1:bob:x")] = some s ∧
    s.next (.recv 3 (ascii "3:0:bob:")) = some t ∧
    ((∀ name ∈ logins 3, LoggedOut t name) ↔
      ∀ conn, s.conns 3 = .running conn → conn.serverConnectionStatus = .online →
        ∀ own ∈ ownRecord s.world.mem.users conn.source.bytes, own.Placed) := by
  let events : List Event := [.accept 3 ⟨[], by decide, by decide⟩, .recv 3 (ascii "13:1:bob:x")]
  let exit : Event := .recv 3 (ascii "3:0:bob:")
  obtain ⟨s, hs⟩ : ∃ s, afterEventsWhen (fun s e => e.socket = 3 → LogsInOnce s e) events = some s :=
    Option.isSome_iff_exists.1 (by decide)
  obtain ⟨logins, hr⟩ := (reachable_afterEventsWhen hs).recorded noLogins logLogins
  have hslot : ((afterEventsWhen (fun s e => e.socket = 3 → LogsInOnce s e) events).bind (·.next exit)).map
      (fun t => t.conns 3) = some .closed := by decide
  rw [hs, Option.bind_some, Option.map_eq_some_iff] at hslot
  obtain ⟨t, ht, hclosed⟩ := hslot
  exact ⟨s, t, logins, hs, ht, no_ghost_logins (e := exit) hr ht hclosed⟩

/-- A connection registers `ann`, registers `bob`, and exits: `ann` is online. -/
theorem no_ghost_logins_fails : ¬ ∀ s logins, Reachable (server.recording noLogins logLogins) (s, logins) →
    ∀ e t, s.next e = some t → t.conns e.socket = .closed → ∀ name ∈ logins e.socket, LoggedOut t name := by
  intro h
  let ann : CStr maxName := ⟨ascii "ann", by decide, by decide⟩
  let events : List Event := [.accept 3 ann, .recv 3 (ascii "13:1:ann:x"), .recv 3 (ascii "13:1:bob:x")]
  let run := runFrom (recordNext ServerState.next logLogins) (started [] [], noLogins) events
  obtain ⟨⟨s, logins⟩, hp⟩ : ∃ p, run = some p := Option.isSome_iff_exists.1 (by decide)
  have hinit : server.init (started [] []) := ⟨[], [], ⟨1, rfl⟩, rfl⟩
  have hr : Reachable (server.recording noLogins logLogins) (s, logins) :=
    reachable_recordNext (fun _ _ _ h => h) hinit hp
  have hlogins : run.map (fun p => decide (ann ∈ p.2 3)) = some true := by decide +kernel
  rw [hp, Option.map_some, Option.some.injEq, decide_eq_true_eq] at hlogins
  have hafter : (run.bind fun p => p.1.next (.recv 3 (ascii "3:0:bob:"))).map
      (fun t => (t.conns 3, (t.world.mem.users[0]?).map User.status,
        databaseSearchUser t.world.mem.users ann.bytes)) = some (.closed, some .online, some 0) := by decide +kernel
  rw [hp, Option.bind_some, Option.map_eq_some_iff] at hafter
  obtain ⟨t, ht, hstate⟩ := hafter
  simp only [Prod.mk.injEq] at hstate
  obtain ⟨hclosed, hon, hfound⟩ := hstate
  obtain ⟨i, u, hrec, hoff, -⟩ := h s logins hr _ t ht hclosed ann hlogins
  obtain rfl : i = 0 := Option.some.inj (hrec.found.symm.trans hfound)
  rw [hrec.get, Option.map_some, hoff] at hon
  cases hon

end Conferencing
