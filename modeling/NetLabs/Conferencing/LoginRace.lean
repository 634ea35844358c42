import NetLabs.Conferencing.Logins

/-!
# The race of two logins

`verify_login` decides without a lock, and `user_login` acts later with one.  Here a login is two steps, and everything
else one; taken at once, the two are the branch of the handler (`atomic_login`).  Two live connections are logged in to
one account only if a login finds the account online that it has found offline before, or a connection exits under a
name that it has not logged in with (`one_login_per_account`).
-/

namespace Conferencing

open CText LockProg Transition

/-! ### The two steps -/

/-- The `LOGIN` that a chunk contains. -/
def loginRequest (chunk : Bytes) : Option (Message × CStr maxName) :=
  (decode (recvBuffer chunk)).filter fun p => p.1.type = MsgType.login

/-- The first step: `verify_login`, and the refusal when it fails. -/
def verifyStep (socketFd : Nat) (received : Message) (claimed : CStr maxName) : Handler Bool := do
  let replyType ← verifyLogin claimed.bytes (cstr received.data.bytes)
  if replyType = .successLogin then return true
  else
    fillAndSend socketFd MsgType.loNak claimed (selectLoginMessage replyType)
    return false

/-- The second step: `user_login`, and the acknowledgement. -/
def loginStep (socketFd : Nat) (claimed : CStr maxName) : Handler (Option Conn) := do
  userLogin claimed.bytes .online socketFd
  fillAndSend socketFd MsgType.loAck claimed none
  return some ⟨claimed, .online⟩

/-- The server, and the account that each thread has verified and not yet logged in to. -/
structure RaceState where
  server : ServerState
  verified : Nat → Option (CStr maxName)

inductive RaceEvent
  | other (e : Event)
  | verify (socketFd : Nat) (chunk : Bytes)
  | login (socketFd : Nat)

/-- The event is a `LOGIN`. -/
def Event.IsLogin : Event → Prop
  | .recv _ chunk => loginRequest chunk ≠ none
  | _ => False

instance : DecidablePred Event.IsLogin
  | .accept _ _ => inferInstanceAs (Decidable False)
  | .recv _ chunk => inferInstanceAs (Decidable (loginRequest chunk ≠ none))
  | .disconnect _ => inferInstanceAs (Decidable False)

/-- One step; a thread between its two steps does nothing else. -/
def RaceState.next (s : RaceState) : RaceEvent → Option RaceState
  | .other e =>
    if s.verified e.socket = none ∧ ¬ e.IsLogin then (s.server.next e).map fun t => ⟨t, s.verified⟩ else none
  | .verify socketFd chunk =>
    match s.server.conns socketFd, s.verified socketFd, loginRequest chunk with
    | .running conn, none, some (received, claimed) =>
      if 0 < chunk.length ∧ chunk.length ≤ maximumBufferSize then
        match verifyStep socketFd received claimed s.server.clear with
        | .ret found w => some ⟨s.server.setConn socketFd w (.running conn),
            Function.update s.verified socketFd (if found then some claimed else none)⟩
        | .blocked w => some ⟨s.server.setConn socketFd w .stuck, s.verified⟩
        | .fault => none
      else none
    | _, _, _ => none
  | .login socketFd =>
    match s.server.conns socketFd, s.verified socketFd with
    | .running _, some claimed => (s.server.after socketFd (loginStep socketFd claimed s.server.clear)).map fun t =>
        ⟨t, Function.update s.verified socketFd none⟩
    | _, _ => none

def raceServer : System RaceState RaceEvent where
  init s := server.init s.server ∧ s.verified = fun _ => none
  step s e t := s.next e = some t

section Steps

variable {socketFd : Nat} {received : Message} {claimed : CStr maxName} {w : World Mutex Memory}

theorem run_verifyStep (socketFd : Nat) (received : Message) (claimed : CStr maxName) (w : World Mutex Memory) :
    verifyStep socketFd received claimed w =
      if loginCode w.mem.users claimed.bytes (cstr received.data.bytes) = .successLogin then .ret true w
      else .ret false (w.setMem (w.mem.sent socketFd (wireOf MsgType.loNak claimed
        (selectLoginMessage (loginCode w.mem.users claimed.bytes (cstr received.data.bytes)))))) := by
  have hnak := run_fillAndSend (show MsgType.loNak ≠ MsgType.message by decide)
  simp only [verifyStep, run_bind, run_verifyLogin, bind_ret]
  split
  · rfl
  · simp only [run_bind, hnak, bind_ret, run_pure]

/-- The table and the outbox after the second step. -/
def loggedIn (m : Memory) (i socketFd : Nat) (claimed : CStr maxName) : Memory :=
  (m.setUsers (m.users.modify i (User.login .online socketFd))).sent socketFd (wireOf MsgType.loAck claimed none)

private theorem run_loginStep {i : Nat} {u : User} (hrec : Record w.mem.users claimed.bytes i u) (socketFd : Nat) :
    loginStep socketFd claimed w =
      if w.held .userList then .blocked w
      else .ret (some ⟨claimed, .online⟩) (w.setMem (loggedIn w.mem i socketFd claimed)) := by
  have hack := run_fillAndSend (show MsgType.loAck ≠ MsgType.message by decide)
  simp only [loginStep, run_bind, run_userLogin hrec]
  split
  · rfl
  · simp only [run_bind, bind_ret, hack, run_pure]
    rfl

/-- The branch `LOGIN` of the handler is the two steps. -/
theorem dispatch_login (htype : received.type = MsgType.login) (conn : Conn) (buffer : Bytes) :
    dispatch socketFd conn buffer received claimed w = (do
      let found ← verifyStep socketFd received claimed
      if found then loginStep socketFd claimed else return some conn : Handler (Option Conn)) w := by
  simp only [dispatch, htype, ↓reduceIte, run_bind, run_verifyLogin, bind_ret, run_verifyStep]
  split
  · rfl
  · rename_i hcode
    simp only [run_bind, run_fillAndSend (show MsgType.loNak ≠ MsgType.message by decide), bind_ret, run_pure]
    rfl

theorem loginRequest_eq_some {chunk : Bytes} (h : loginRequest chunk = some (received, claimed)) :
    decode (recvBuffer chunk) = some (received, claimed) ∧ received.type = MsgType.login := by
  obtain ⟨hdec, htype⟩ := Option.filter_eq_some_iff.1 h
  exact ⟨hdec, of_decide_eq_true htype⟩

end Steps

/-- A login whose steps are not interrupted is one event of the server. -/
theorem atomic_login (s : ServerState) (socketFd : Nat) {chunk : Bytes} (h : loginRequest chunk ≠ none) :
    s.next (.recv socketFd chunk) =
      ((RaceState.mk s fun _ => none).next (.verify socketFd chunk)).bind fun mid =>
        if mid.verified socketFd = none then some mid.server else (mid.next (.login socketFd)).map RaceState.server := by
  obtain ⟨⟨received, claimed⟩, hrequest⟩ := Option.ne_none_iff_exists'.1 h
  obtain ⟨hdec, htype⟩ := loginRequest_eq_some hrequest
  cases hconn : s.conns socketFd with
  | closed => simp [ServerState.next, RaceState.next, hconn]
  | stuck => simp [ServerState.next, RaceState.next, hconn]
  | running conn =>
    simp only [ServerState.next, RaceState.next, hconn, hrequest]
    split
    · rw [serve_eq hdec, dispatch_login htype, run_bind, run_verifyStep]
      split
      · have hclear : (s.setConn socketFd s.clear (.running conn)).clear = s.clear := rfl
        have hslot : (s.setConn socketFd s.clear (.running conn)).conns socketFd = .running conn := Function.update_self _ _ _
        have hafter : ∀ o, (s.setConn socketFd s.clear (.running conn)).after socketFd o = s.after socketFd o := by
          intro o
          simp only [ServerState.after, ServerState.setConn, Function.update_idem]
        simp only [bind_ret, ↓reduceIte, Option.bind_some, Function.update_self, reduceCtorEq, hslot, hclear, hafter,
          Option.map_map, Function.comp_def, Option.map_id_fun']
        rfl
      · simp [ServerState.after]
    · rfl

/-! ### Who has been accepted -/

/-- The names for which each socket has been sent `LO_ACK` since its connection was accepted. -/
def logAccepted (s : RaceState) (e : RaceEvent) (t : RaceState) (accepted : Nat → List (CStr maxName)) :
    Nat → List (CStr maxName) :=
  match e with
  | .other (.accept socketFd _) => Function.update accepted socketFd []
  | .login socketFd => Function.update accepted socketFd (accepted socketFd ++ (s.verified socketFd).toList.filter
      fun name => t.server.world.mem.outbox.contains (socketFd, wireOf MsgType.loAck name none))
  | _ => accepted

/-- A login finds its account as `verify_login` has found it, offline, and a connection that exits is logged in. -/
def Undisturbed (s : RaceState) : RaceEvent → Prop
  | .login socketFd => ∀ name ∈ s.verified socketFd, ∀ own ∈ ownRecord s.server.world.mem.users name.bytes,
      own.status = .offline
  | .other (.recv socketFd chunk) => ∀ conn ∈ (s.server.conns socketFd).conn?, ∀ p ∈ decode (recvBuffer chunk),
      p.1.type = MsgType.exit → conn.serverConnectionStatus = .online
  | _ => True

instance (s : RaceState) : DecidablePred (Undisturbed s)
  | .login socketFd => inferInstanceAs (Decidable (∀ name ∈ s.verified socketFd,
      ∀ own ∈ ownRecord s.server.world.mem.users name.bytes, own.status = .offline))
  | .other (.recv socketFd chunk) => inferInstanceAs (Decidable (∀ conn ∈ (s.server.conns socketFd).conn?,
      ∀ p ∈ decode (recvBuffer chunk), p.1.type = MsgType.exit → conn.serverConnectionStatus = .online))
  | .other (.accept _ _) => inferInstanceAs (Decidable True)
  | .other (.disconnect _) => inferInstanceAs (Decidable True)
  | .verify _ _ => inferInstanceAs (Decidable True)

/-- A live connection has been accepted for the account, or acts for it. -/
def Owns (s : ServerState) (accepted : Nat → List (CStr maxName)) (fd : Nat) (name : CStr maxName) : Prop :=
  s.conns fd ≠ .closed ∧ (name ∈ accepted fd ∨ s.conns fd = .running ⟨name, .online⟩)

/-- The account is online. -/
def Online (s : ServerState) (name : CStr maxName) : Prop :=
  ∃ i u, Record s.world.mem.users name.bytes i u ∧ u.status = .online

/-- Every account that is owned is online, and owned once; and what has been verified is in the table. -/
structure Exclusive (s : RaceState) (accepted : Nat → List (CStr maxName)) : Prop where
  online : ∀ fd name, Owns s.server accepted fd name → Online s.server name
  alone : ∀ fd fd' name, Owns s.server accepted fd name → Owns s.server accepted fd' name → fd = fd'
  known : ∀ fd name, s.verified fd = some name → ∃ i u, Record s.server.world.mem.users name.bytes i u

section Exclusive

variable {s t : RaceState} {accepted accepted' : Nat → List (CStr maxName)}

theorem Slot.live {slot : Slot} {conn : Conn} (h : slot = .running conn) : slot ≠ .closed := by
  rw [h]
  intro h
  cases h

theorem Turn.live {s t : ServerState} {e : Event} (hturn : Turn s e t)
    (h : ∀ socketFd garbage, e ≠ .accept socketFd garbage) : s.conns e.socket ≠ .closed := by
  cases hturn with
  | accepted _ _ => exact absurd rfl (h _ _)
  | served hconn _ _ _ => exact Slot.live hconn
  | recvWaits hconn _ _ => exact Slot.live hconn
  | disconnected hconn _ _ => exact Slot.live hconn
  | disconnectWaits hconn _ _ => exact Slot.live hconn

/-- An owner after a step was one before, or a socket `fd₀` that has found the account not online. -/
theorem Exclusive.step (h : Exclusive s accepted) (fd₀ : Nat)
    (howns : ∀ fd name, Owns t.server accepted' fd name → Online t.server name ∧
      (Owns s.server accepted fd name ∨ fd = fd₀ ∧ ¬ Online s.server name))
    (hknown : ∀ fd name, t.verified fd = some name → ∃ i u, Record t.server.world.mem.users name.bytes i u) :
    Exclusive t accepted' := by
  refine ⟨fun fd name ho => (howns fd name ho).1, fun fd fd' name ho ho' => ?_, hknown⟩
  obtain ⟨-, hold | ⟨hfd, hoff⟩⟩ := howns fd name ho
  · obtain ⟨-, hold' | ⟨-, hoff⟩⟩ := howns fd' name ho'
    · exact h.alone fd fd' name hold hold'
    · exact absurd (h.online fd name hold) hoff
  · obtain ⟨-, hold' | ⟨hfd', -⟩⟩ := howns fd' name ho'
    · exact absurd (h.online fd' name hold') hoff
    · exact hfd.trans hfd'.symm

theorem Exclusive.other (h : Exclusive s accepted) {e : Event} {t : ServerState} (hturn : Turn s.server e t)
    (hexit : Undisturbed s (.other e)) :
    Exclusive ⟨t, s.verified⟩ (logAccepted s (.other e) ⟨t, s.verified⟩ accepted) := by
  refine h.step e.socket (fun fd name ho => ?_) fun fd name hname => ?_
  · obtain ⟨hlive, hin⟩ := ho
    have hcases : Owns s.server accepted fd name ∨ fd = e.socket ∧ Online t name ∧ ¬ Online s.server name := by
      rcases hin with hin | hrunning
      · left
        by_cases hfd : e.socket = fd
        · subst hfd
          refine ⟨hturn.live ?_, Or.inl ?_⟩
          · rintro socketFd garbage rfl
            simp [logAccepted, Event.socket] at hin
          · cases e with
            | accept socketFd garbage => simp [logAccepted, Event.socket] at hin
            | recv _ _ => exact hin
            | disconnect _ => exact hin
        · refine ⟨by rwa [← hturn.conns_ne hfd], Or.inl ?_⟩
          cases e with
          | accept socketFd garbage => simpa [logAccepted, Function.update_of_ne (Ne.symm hfd : fd ≠ socketFd)] using hin
          | recv _ _ => exact hin
          | disconnect _ => exact hin
      · rcases hturn.loggedIn hrunning rfl with hold | ⟨hfd, hrec, hoff⟩
        · exact Or.inl ⟨Slot.live hold, Or.inr hold⟩
        · refine Or.inr ⟨hfd, hrec, ?_⟩
          rintro ⟨i, u, hu, hon⟩
          cases hon.symm.trans (hoff i u hu)
    rcases hcases with hold | ⟨hfd, hon, hoff⟩
    · refine ⟨?_, Or.inl hold⟩
      obtain ⟨i, u, hrec, hon⟩ := h.online fd name hold
      obtain ⟨u', hrec', hon' | ⟨⟨conn, hconn, hsource, hby⟩, hclosed⟩⟩ := hturn.online hrec hon
      · exact ⟨i, u', hrec', hon'⟩
      · -- only its owner can log an account out
        have hstatus : conn.serverConnectionStatus = .online := by
          rcases hby with hby | ⟨socketFd, chunk, p, rfl, hdec, htype⟩
          · exact hby
          · exact hexit conn (by rw [show s.server.conns socketFd = _ from hconn]; rfl) p hdec htype
        obtain ⟨source, status⟩ := conn
        obtain rfl : status = .online := hstatus
        obtain rfl : source = name := CStr.ext hsource
        have howner : Owns s.server accepted e.socket source :=
          ⟨Slot.live hconn, Or.inr hconn⟩
        have hfd := h.alone _ _ _ howner hold
        exact absurd (hfd ▸ hclosed) hlive
    · exact ⟨hon, Or.inr ⟨hfd, hoff⟩⟩
  · obtain ⟨i, u, hrec⟩ := h.known fd name hname
    obtain ⟨u', hrec', -⟩ := hturn.record hrec
    exact ⟨i, u', hrec'⟩

/-- The first step changes nobody's account. -/
theorem Exclusive.verify (h : Exclusive s accepted) {socketFd : Nat} {chunk : Bytes}
    (hnext : s.next (.verify socketFd chunk) = some t) : Exclusive t accepted := by
  simp only [RaceState.next] at hnext
  split at hnext
  · rename_i conn received claimed hconn hverified hrequest
    simp only [Option.ite_none_right_eq_some, run_verifyStep] at hnext
    obtain ⟨-, hnext⟩ := hnext
    have hconns : ∀ w, (s.server.setConn socketFd w (.running conn)).conns = s.server.conns := by
      intro w
      rw [ServerState.setConn, ← hconn, Function.update_eq_self]
    have hsame : ∀ w verified, w.mem.users = s.server.world.mem.users →
        (∀ fd name, verified fd = some name → ∃ i u, Record s.server.world.mem.users name.bytes i u) →
        Exclusive ⟨s.server.setConn socketFd w (.running conn), verified⟩ accepted := by
      intro w verified husers hknown
      have howns : ∀ fd name, Owns (s.server.setConn socketFd w (.running conn)) accepted fd name →
          Owns s.server accepted fd name := by
        intro fd name ho
        rwa [Owns, hconns] at ho
      refine h.step socketFd (fun fd name ho => ⟨?_, Or.inl (howns fd name ho)⟩) ?_
      · obtain ⟨i, u, hrec, hon⟩ := h.online fd name (howns fd name ho)
        exact ⟨i, u, husers ▸ hrec, hon⟩
      · intro fd name hname
        obtain ⟨i, u, hrec⟩ := hknown fd name hname
        exact ⟨i, u, husers ▸ hrec⟩
    split at hnext
    · rename_i found w hrun
      obtain rfl := Option.some.inj hnext
      split at hrun
      · rename_i hcode
        cases hrun
        refine hsame _ _ rfl fun fd name hname => ?_
        by_cases hfd : fd = socketFd
        · subst hfd
          obtain rfl : claimed = name := by simpa using hname
          obtain ⟨i, u, hrec, -⟩ := loginCode_success hcode
          exact ⟨i, u, hrec⟩
        · rw [Function.update_of_ne hfd] at hname
          exact h.known fd name hname
      · cases hrun
        refine hsame _ _ rfl fun fd name hname => ?_
        by_cases hfd : fd = socketFd
        · subst hfd
          simp at hname
        · rw [Function.update_of_ne hfd] at hname
          exact h.known fd name hname
    · rename_i w hrun
      split at hrun <;> cases hrun
    · cases hnext
  · cases hnext

/-- The second step logs in to an account that it has found offline. -/
theorem Exclusive.login (h : Exclusive s accepted) {socketFd : Nat} (hnext : s.next (.login socketFd) = some t)
    (hcond : Undisturbed s (.login socketFd)) : Exclusive t (logAccepted s (.login socketFd) t accepted) := by
  simp only [RaceState.next] at hnext
  split at hnext
  · rename_i conn claimed hconn hverified
    obtain ⟨i, u, hrec⟩ := h.known socketFd claimed hverified
    have hoff : u.status = .offline := hcond claimed hverified u (ownRecord_eq hrec)
    rw [run_loginStep (w := s.server.clear) hrec] at hnext
    obtain ⟨server, hafter, rfl⟩ := Option.map_eq_some_iff.1 hnext
    have hkeep : Table.Pointwise (fun _ v v' => v'.name = v.name ∧ (v.status = .online → v'.status = .online))
        s.server.world.mem.users (s.server.world.mem.users.modify i (User.login .online socketFd)) :=
      .modify hrec.get ⟨rfl, fun _ => rfl⟩ fun _ _ _ _ => ⟨rfl, id⟩
    have hother : ∀ fd name, Function.update s.verified socketFd none fd = some name → s.verified fd = some name := by
      intro fd name hname
      by_cases hfd : fd = socketFd
      · subst hfd
        simp at hname
      · rwa [Function.update_of_ne hfd] at hname
    have hne : ∀ w slot t' fd name, fd ≠ socketFd →
        Owns (s.server.setConn socketFd w slot) (logAccepted s (.login socketFd) t' accepted) fd name →
        Owns s.server accepted fd name := by
      intro w slot t' fd name hfd ho
      simpa [Owns, ServerState.setConn, logAccepted, hfd] using ho
    split at hafter
    · obtain rfl := Option.some.inj hafter
      refine h.step socketFd (fun fd name ho => ?_) fun fd name hname => h.known fd name (hother fd name hname)
      have hold : Owns s.server accepted fd name := by
        by_cases hfd : fd = socketFd
        · subst hfd
          obtain ⟨-, hin⟩ := ho
          refine ⟨Slot.live hconn, Or.inl ?_⟩
          simpa [logAccepted, ServerState.setConn, ServerState.clear] using hin
        · exact hne _ _ _ fd name hfd ho
      exact ⟨h.online fd name hold, Or.inl hold⟩
    · obtain rfl := Option.some.inj hafter
      refine h.step socketFd (fun fd name ho => ?_) fun fd name hname => ?_
      · by_cases hnew : fd = socketFd ∧ name = claimed
        · obtain ⟨rfl, rfl⟩ := hnew
          refine ⟨⟨i, u.login .online fd, hrec.modify_self fun _ => rfl, rfl⟩, Or.inr ⟨rfl, ?_⟩⟩
          rintro ⟨j, v, hv, hon⟩
          obtain ⟨-, rfl⟩ := hrec.unique hv
          cases hon.symm.trans hoff
        · have hold : Owns s.server accepted fd name := by
            by_cases hfd : fd = socketFd
            · subst hfd
              have hname : name ≠ claimed := fun hname => hnew ⟨rfl, hname⟩
              obtain ⟨-, hin⟩ := ho
              refine ⟨Slot.live hconn, Or.inl ?_⟩
              simpa [logAccepted, ServerState.setConn, hverified, hname, Ne.symm hname] using hin
            · exact hne _ _ _ fd name hfd ho
          obtain ⟨j, v, hv, hon⟩ := h.online fd name hold
          obtain ⟨v', hv', -, hon'⟩ := hv.pointwise hkeep fun _ _ _ h => h.1
          exact ⟨⟨j, v', hv', hon' hon⟩, Or.inl hold⟩
      · obtain ⟨j, v, hv⟩ := h.known fd name (hother fd name hname)
        obtain ⟨v', hv', -⟩ := hv.pointwise hkeep fun _ _ _ h => h.1
        exact ⟨j, v', hv'⟩
  · cases hnext

end Exclusive

/-- At most one login per account.  In every run in which each `user_login` finds its account still offline, and only
connections that are logged in exit, no two live connections have been accepted for one account. -/
theorem one_login_per_account {s : RaceState} {accepted : Nat → List (CStr maxName)}
    (hr : Reachable ((raceServer.when Undisturbed).recording noLogins logAccepted) (s, accepted)) {fd fd' : Nat}
    (hlive : s.server.conns fd ≠ .closed) (hlive' : s.server.conns fd' ≠ .closed) {name : CStr maxName}
    (h : name ∈ accepted fd) (h' : name ∈ accepted fd') : fd = fd' := by
  have hexclusive : ∀ p : RaceState × (Nat → List (CStr maxName)),
      Reachable ((raceServer.when Undisturbed).recording noLogins logAccepted) p → Exclusive p.1 p.2 := by
    intro p hr
    induction hr with
    | @init p h =>
      obtain ⟨⟨⟨file, users, -, hstart⟩, hverified⟩, -⟩ := h
      have hclosed : ∀ fd, p.1.server.conns fd = .closed := by
        rw [hstart]
        intro fd
        rfl
      refine ⟨fun fd name ho => absurd (hclosed fd) ho.1, fun fd fd' name ho => absurd (hclosed fd) ho.1, ?_⟩
      rw [hverified]
      intro fd name hname
      cases hname
    | @step p q e _ hst ih =>
      obtain ⟨⟨hcond, hnext⟩, hlog⟩ := hst
      rw [hlog]
      cases e with
      | verify socketFd chunk => exact ih.verify hnext
      | login socketFd => exact ih.login hnext hcond
      | other e =>
        change RaceState.next p.1 (.other e) = some q.1 at hnext
        simp only [RaceState.next, Option.ite_none_right_eq_some] at hnext
        obtain ⟨-, hnext⟩ := hnext
        obtain ⟨t, ht, hq⟩ := Option.map_eq_some_iff.1 hnext
        rw [← hq]
        exact ih.other (ServerState.turn ht) hcond
  exact (hexclusive _ hr).alone fd fd' name ⟨hlive, Or.inl h⟩ ⟨hlive', Or.inl h'⟩

/-- The server on an empty database file, with nobody between the two steps of a login. -/
def raceStarted : RaceState := ⟨started [] [], fun _ => none⟩

private theorem raceServer_init : raceServer.init raceStarted := ⟨⟨[], [], ⟨1, rfl⟩, rfl⟩, rfl⟩

/-- `ann` registers on socket 5 and exits, and then two connections are accepted. -/
def annRegistered : List RaceEvent :=
  [.other (.accept 5 serverName), .other (.recv 5 (ascii "13:1:ann:x")), .other (.recv 5 (ascii "3:0:ann:")),
    .other (.accept 3 serverName), .other (.accept 4 serverName)]

/-- The second of the two connections verifies the account when the first has logged in. -/
theorem one_login_per_account_ann : ∃ s accepted, runFrom (recordNext (guarded Undisturbed RaceState.next) logAccepted)
      (raceStarted, noLogins) (annRegistered ++ [.verify 3 (ascii "0:1:ann:x"), .login 3,
        .verify 4 (ascii "0:1:ann:x")]) = some (s, accepted) ∧
    ∀ fd fd', s.server.conns fd ≠ .closed → s.server.conns fd' ≠ .closed → ∀ name, name ∈ accepted fd →
      name ∈ accepted fd' → fd = fd' := by
  let events : List RaceEvent := annRegistered ++ [.verify 3 (ascii "0:1:ann:x"), .login 3, .verify 4 (ascii "0:1:ann:x")]
  obtain ⟨⟨s, accepted⟩, hp⟩ : ∃ p, runFrom (recordNext (guarded Undisturbed RaceState.next) logAccepted)
      (raceStarted, noLogins) events = some p := Option.isSome_iff_exists.1 (by decide +kernel)
  have hstep : ∀ s e t, guarded Undisturbed RaceState.next s e = some t → (raceServer.when Undisturbed).step s e t := by
    intro s e t h
    simp only [guarded, Option.ite_none_right_eq_some] at h
    exact h
  have hr := reachable_recordNext hstep raceServer_init hp
  exact ⟨s, accepted, hp, fun fd fd' hlive hlive' name h h' => one_login_per_account hr hlive hlive' h h'⟩

/-- The event is a `LOGIN` received from `socketFd`. -/
def RaceEvent.verifies (socketFd : Nat) : RaceEvent → Bool
  | .verify fd _ => fd = socketFd
  | _ => false

/-- Both connections verify the account before either of them has logged in. -/
theorem one_login_per_account_fails : ¬ ∀ events s accepted,
    (∀ fd, events.countP (RaceEvent.verifies fd) ≤ 1) →
    runFrom (recordNext RaceState.next logAccepted) (raceStarted, noLogins) events = some (s, accepted) →
    ∀ fd fd', s.server.conns fd ≠ .closed → s.server.conns fd' ≠ .closed → ∀ name, name ∈ accepted fd →
      name ∈ accepted fd' → fd = fd' := by
  intro h
  let ann : CStr maxName := ⟨ascii "ann", by decide, by decide⟩
  let events : List RaceEvent := annRegistered ++ [.verify 3 (ascii "0:1:ann:x"), .verify 4 (ascii "0:1:ann:x"),
    .login 3, .login 4]
  have honce : ∀ fd, events.countP (RaceEvent.verifies fd) ≤ 1 := by
    intro fd
    by_cases hfd : fd = 3
    · subst hfd
      decide
    · by_cases hfd' : fd = 4
      · subst hfd'
        decide
      · simp [events, annRegistered, RaceEvent.verifies, Ne.symm hfd, Ne.symm hfd']
  have hrun : (runFrom (recordNext RaceState.next logAccepted) (raceStarted, noLogins) events).map
      (fun p => (p.1.server.conns 3, p.1.server.conns 4, p.2 3, p.2 4)) =
      some (.running ⟨ann, .online⟩, .running ⟨ann, .online⟩, [ann], [ann]) := by decide +kernel
  obtain ⟨⟨s, accepted⟩, hp, hstate⟩ := Option.map_eq_some_iff.1 hrun
  simp only [Prod.mk.injEq] at hstate
  obtain ⟨hthree, hfour, hann, hann'⟩ := hstate
  have := h events s accepted honce hp 3 4 (Slot.live hthree) (Slot.live hfour) ann (by simp [hann]) (by simp [hann'])
  cases this

end Conferencing
