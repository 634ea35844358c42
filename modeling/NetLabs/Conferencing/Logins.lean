import NetLabs.Conferencing.Frame

/-!
# Logins

Which events put an account online, and for which connection (`Turn.login_cases`).  In a run whose requests all come
from connections that are logged in, the account of each of them is online and belongs to no other connection
(`owned_of_reachable`).
-/

namespace Conferencing

open CText LockProg Transition

/-! ### Requests of connections that are logged in -/

/-- A request of a connection that is logged in, or one that logs it in. -/
def OfLoggedIn (s : ServerState) : Event → Prop
  | .recv socketFd chunk => ∀ conn ∈ (s.conns socketFd).conn?, ∀ p ∈ decode (recvBuffer chunk),
      conn.serverConnectionStatus = .online ∨ p.1.type = MsgType.login ∨ p.1.type = MsgType.create
  | _ => True

instance (s : ServerState) : DecidablePred (OfLoggedIn s)
  | .accept _ _ => inferInstanceAs (Decidable True)
  | .recv socketFd chunk => inferInstanceAs (Decidable (∀ conn ∈ (s.conns socketFd).conn?,
      ∀ p ∈ decode (recvBuffer chunk),
        conn.serverConnectionStatus = .online ∨ p.1.type = MsgType.login ∨ p.1.type = MsgType.create))
  | .disconnect _ => inferInstanceAs (Decidable True)

/-! ### The status of a record -/

section Status

variable {users : List User} {name : Bytes} {k : Nat} {u u' : User}

theorem Leaves.name_eq (h : Leaves users name k u u') : u'.name = u.name := by
  cases h <;> rfl

theorem Quits.name_eq (h : Quits users name k u u') : u'.name = u.name := by
  cases h <;> rfl

private theorem Leaves.status_eq (h : Leaves users name k u u') : u'.status = u.status := by
  cases h <;> rfl

/-- The end of a thread logs out its own user only. -/
theorem Quits.status (h : Quits users name k u u') : u'.status = u.status ∨ Record users name k u := by
  cases h with
  | same _ => exact Or.inl rfl
  | out hrec _ => exact Or.inr hrec
  | own hrec _ _ => exact Or.inr hrec
  | last _ => exact Or.inl rfl

variable {socketFd : Nat} {conn : Conn} {received : Message} {claimed : CStr maxName}

theorem Touched.name_eq (h : Touched users socketFd conn received claimed k u u') : u'.name = u.name := by
  cases h with
  | exit _ h => exact h.name_eq
  | leave _ h => exact h.name_eq
  | _ => rfl

theorem Touched.online (h : Touched users socketFd conn received claimed k u u') (hon : u.status = .online) :
    u'.status = .online ∨ received.type = MsgType.exit ∧ Record users conn.source.bytes k u := by
  cases h with
  | login _ _ _ => exact Or.inl rfl
  | exit htype h => exact h.status.imp (·.trans hon) fun hrec => ⟨htype, hrec⟩
  | leave _ h => exact Or.inl (h.status_eq.trans hon)
  | _ => exact Or.inl hon

theorem Answers.ne_exit {request type : UInt32} (h : Answers request type) : request ≠ MsgType.exit := by
  cases h <;> decide

theorem Served.exit_closes {m m' : Memory} {r : Option Conn} (h : Served socketFd conn received claimed m r m')
    (hexit : received.type = MsgType.exit) : r = none := by
  cases h with
  | answered h _ _ => exact absurd hexit h.ne_exit
  | echoed h => simp [requests, hexit] at h
  | exited _ _ => rfl
  | _ => exact absurd (‹received.type = _›.symm.trans hexit) (by decide)

/-- Only `EXIT` ends a thread. -/
theorem Served.type_of_closes {m m' : Memory} (h : Served socketFd conn received claimed m none m') :
    received.type = MsgType.exit := by
  cases h with
  | exited htype _ => exact htype

/-- The event ends the thread of a connection that acts as `name`. -/
def Ends (s : ServerState) (e : Event) (name : Bytes) : Prop :=
  ∃ conn, s.conns e.socket = .running conn ∧ conn.source.bytes = name ∧
    (conn.serverConnectionStatus = .online ∨ ∃ socketFd chunk p, e = .recv socketFd chunk ∧
      decode (recvBuffer chunk) = some p ∧ p.1.type = MsgType.exit)

/-- An account that is online stays so until a thread that acts under its name ends. -/
theorem Turn.online {s t : ServerState} {e : Event} (hturn : Turn s e t) {i : Nat}
    (hrec : Record s.world.mem.users name i u) (hon : u.status = .online) :
    ∃ u', Record t.world.mem.users name i u' ∧
      (u'.status = .online ∨ Ends s e name ∧ t.conns e.socket = .closed) := by
  have hwaits : ∀ {w : World Mutex Memory}, w.mem = s.clear.mem →
      ∃ u', Record w.mem.users name i u' ∧ (u'.status = .online ∨ Ends s e name ∧ t.conns e.socket = .closed) := by
    intro w hmem
    exact ⟨u, hmem ▸ hrec, Or.inl hon⟩
  cases hturn with
  | accepted _ _ => exact ⟨u, hrec, Or.inl hon⟩
  | @served socketFd chunk conn received claimed r w hconn hdec _ hserved =>
    rcases hserved.touched with htouched | ⟨-, password, hnew⟩
    · obtain ⟨u', hrec', htouch⟩ := hrec.pointwise htouched fun _ _ _ h => h.name_eq
      refine ⟨u', hrec', (htouch.online hon).imp_right ?_⟩
      rintro ⟨htype, hown⟩
      have hsource : conn.source.bytes = name := hown.key_eq.symm.trans hrec.key_eq
      refine ⟨⟨conn, hconn, hsource, Or.inr ⟨socketFd, chunk, _, rfl, hdec, htype⟩⟩, ?_⟩
      simp [ServerState.setConn, Event.socket, hserved.exit_closes htype, slotOf]
    · exact ⟨u, by rw [show (s.setConn socketFd w (slotOf r)).world.mem.users = _ from hnew]; exact hrec.append _,
        Or.inl hon⟩
  | recvWaits _ _ hmem => exact hwaits hmem
  | @disconnected socketFd conn w hconn _ hserved =>
    rcases hserved with ⟨-, hmem⟩ | ⟨hstatus, hx⟩
    · exact hwaits hmem
    · obtain ⟨u', hrec', hquit⟩ := hrec.pointwise hx.quits fun _ _ _ h => h.name_eq
      refine ⟨u', hrec', hquit.status.imp (·.trans hon) fun hown => ⟨⟨conn, hconn, ?_, Or.inl hstatus⟩, ?_⟩⟩
      · exact hown.key_eq.symm.trans hrec.key_eq
      · simp [ServerState.setConn, Event.socket]
  | disconnectWaits _ _ hmem => exact hwaits hmem

end Status

/-! ### What an event logs in -/

/-- The name and the data of a request of one type, when the event answers it with `reply`. -/
def acknowledged (request reply : UInt32) (e : Event) (t : ServerState) : Option (CStr maxName × Bytes) :=
  match e with
  | .recv socketFd chunk => (decode (recvBuffer chunk)).bind fun p =>
      if p.1.type = request ∧ (socketFd, wireOf reply p.2 none) ∈ t.world.mem.outbox then
        some (p.2, cstr p.1.data.bytes)
      else none
  | _ => none

/-- The account that an event puts online: that of a `LOGIN` answered with `LO_ACK`, or of a `CREATE` answered with
`RG_ACK`. -/
def loggedInBy (e : Event) (t : ServerState) : Option (CStr maxName) :=
  ((acknowledged MsgType.login MsgType.loAck e t).or (acknowledged MsgType.create MsgType.rgAck e t)).map Prod.fst

/-- The logins of each socket before the first. -/
def noLogins : Nat → List (CStr maxName) := fun _ => []

/-- The username and the password of a `CREATE` answered with `RG_ACK`. -/
def registeredBy (e : Event) (t : ServerState) : Option (CStr maxName × CStr maxPasswordLength) :=
  (acknowledged MsgType.create MsgType.rgAck e t).bind fun p => (CStr.ofBytes? maxPasswordLength p.2).map (p.1, ·)

/-- The event accepts a `LOGIN` to the account `claimed`. -/
structure LogsIn (s : ServerState) (e : Event) (t : ServerState) (claimed : CStr maxName) : Prop where
  loggedIn : loggedInBy e t = some claimed
  registered : registeredBy e t = none
  conn : t.conns e.socket = .running ⟨claimed, .online⟩
  users : ∃ i u, Record s.world.mem.users claimed.bytes i u ∧ u.status = .offline ∧
    t.world.mem.users = s.world.mem.users.modify i (User.login .online e.socket)
  file : t.world.mem.file = s.world.mem.file

/-- The event accepts a `CREATE` of the account `claimed`. -/
structure Registers (s : ServerState) (e : Event) (t : ServerState) (claimed : CStr maxName)
    (password : CStr maxPasswordLength) : Prop where
  loggedIn : loggedInBy e t = some claimed
  registered : registeredBy e t = some (claimed, password)
  conn : t.conns e.socket = .running ⟨claimed, .online⟩
  new : databaseSearchUser s.world.mem.users claimed.bytes = none
  room : s.world.mem.users.length < maxUserCount
  users : t.world.mem.users = s.world.mem.users ++ [registeredUser claimed password e.socket]
  file : t.world.mem.file = s.world.mem.file ++ recordLine claimed.bytes password.bytes
  outbox : t.world.mem.outbox = [(e.socket, wireOf MsgType.rgAck claimed none)]

/-- The event accepts neither. -/
structure Neither (s : ServerState) (e : Event) (t : ServerState) : Prop where
  loggedIn : loggedInBy e t = none
  registered : registeredBy e t = none
  conn : ∀ c, t.conns e.socket = .running c → s.conns e.socket = .running c ∨
    c.serverConnectionStatus = .offline ∧ ∃ socketFd garbage, e = .accept socketFd garbage
  users : Changed s.world.mem.users t.world.mem.users
  file : t.world.mem.file = s.world.mem.file

section Acknowledged

variable {s t : ServerState} {socketFd : Nat} {chunk : Bytes} {conn : Conn} {received : Message}
  {claimed : CStr maxName} {request reply : UInt32}

theorem acknowledged_recv (hdec : decode (recvBuffer chunk) = some (received, claimed)) :
    acknowledged request reply (.recv socketFd chunk) t =
      if received.type = request ∧ (socketFd, wireOf reply claimed none) ∈ t.world.mem.outbox then
        some (claimed, cstr received.data.bytes)
      else none := by
  simp only [acknowledged, hdec, Option.bind_some]

/-- A thread that waits has acknowledged nothing. -/
theorem acknowledged_waits {e : Event} {w : World Mutex Memory} {slot : Slot} (hmem : w.mem = s.clear.mem) (fd : Nat) :
    acknowledged request reply e (s.setConn fd w slot) = none := by
  have hbox : (s.setConn fd w slot).world.mem.outbox = [] := congrArg Memory.outbox hmem
  cases e with
  | recv socketFd chunk => simp [acknowledged, hbox]
  | _ => rfl

/-- Nothing has been accepted when neither reply has been sent to a request of its type. -/
private theorem none_accepted (hdec : decode (recvBuffer chunk) = some (received, claimed))
    (hlogin : received.type = MsgType.login → (socketFd, wireOf MsgType.loAck claimed none) ∉ t.world.mem.outbox)
    (hcreate : received.type = MsgType.create → (socketFd, wireOf MsgType.rgAck claimed none) ∉ t.world.mem.outbox) :
    loggedInBy (.recv socketFd chunk) t = none ∧ registeredBy (.recv socketFd chunk) t = none := by
  have hlogin' : ¬ (received.type = MsgType.login ∧ _) := fun h => hlogin h.1 h.2
  have hcreate' : ¬ (received.type = MsgType.create ∧ _) := fun h => hcreate h.1 h.2
  simp only [loggedInBy, registeredBy, acknowledged_recv hdec, if_neg hlogin', if_neg hcreate']
  exact ⟨rfl, rfl⟩

theorem not_mem_sent {m : Memory} (hempty : m.outbox = []) {dest : Nat} {type type' : UInt32}
    {source source' : CStr maxName} {data data' : Option (CStr maxData)} (hne : type' ≠ type) :
    (socketFd, wireOf type' source' data') ∉ (m.sent dest (wireOf type source data)).outbox := by
  rw [Memory.outbox_sent, hempty, List.nil_append, List.mem_singleton]
  intro h
  exact hne (wire_type (Prod.mk.inj h).2)

private theorem Answers.ne_ack {type : UInt32} (h : Answers request type) :
    MsgType.loAck ≠ type ∧ MsgType.rgAck ≠ type := by
  cases h <;> decide

/-- A message that is served is accepted as a login, as a registration, or as neither. -/
theorem Served.login_cases {r : Option Conn} {m' : Memory}
    (hserved : Served socketFd conn received claimed s.clear.mem r m') (hm : t.world.mem = m')
    (hslot : t.conns socketFd = slotOf r) (hconn : s.conns socketFd = .running conn)
    (hdec : decode (recvBuffer chunk) = some (received, claimed)) :
    LogsIn s (.recv socketFd chunk) t claimed ∨ (∃ password, Registers s (.recv socketFd chunk) t claimed password) ∨
      Neither s (.recv socketFd chunk) t := by
  have hempty : s.clear.mem.outbox = [] := rfl
  -- every request that is not accepted keeps the locals of its connection
  have hneither : (∀ c, r = some c → c = conn) → Changed s.clear.mem.users m'.users → m'.file = s.clear.mem.file →
      (received.type = MsgType.login → (socketFd, wireOf MsgType.loAck claimed none) ∉ m'.outbox) →
      (received.type = MsgType.create → (socketFd, wireOf MsgType.rgAck claimed none) ∉ m'.outbox) →
      Neither s (.recv socketFd chunk) t := by
    intro hr husers hfile hlogin hcreate
    rw [← hm] at husers hfile hlogin hcreate
    obtain ⟨hnone, hnone'⟩ := none_accepted hdec hlogin hcreate
    refine ⟨hnone, hnone', fun c hc => ?_, husers, hfile⟩
    left
    rw [Event.socket, hslot] at hc
    cases r with
    | none => cases hc
    | some c' =>
      cases hc
      rw [hr c rfl]
      exact hconn
  have hother : ∀ type, received.type = type → type ≠ MsgType.login → type ≠ MsgType.create →
      (∀ c, r = some c → c = conn) → Neither s (.recv socketFd chunk) t := by
    intro type htype hlogin hcreate hr
    rcases hserved.changed with ⟨husers, hfile⟩ | ⟨h, -⟩
    · exact hneither hr husers hfile (fun h => absurd (htype.symm.trans h) hlogin)
        fun h => absurd (htype.symm.trans h) hcreate
    · exact absurd (htype.symm.trans h) hcreate
  have hsame : ∀ c, some conn = some c → c = conn := fun c h => (Option.some.inj h).symm
  cases hserved with
  | answered htype _ _ =>
    obtain ⟨hlo, hrg⟩ := htype.ne_ack
    exact Or.inr (Or.inr (hneither hsame (Changed.refl _) rfl (fun _ => not_mem_sent hempty hlo)
      fun _ => not_mem_sent hempty hrg))
  | echoed htype =>
    exact Or.inr (Or.inr (hneither hsame (Changed.refl _) rfl (fun h => absurd (by simp [requests, h]) htype)
      fun h => absurd (by simp [requests, h]) htype))
  | @loggedIn i u htype hrec hoff =>
    left
    have hsent : (socketFd, wireOf MsgType.loAck claimed none) ∈ t.world.mem.outbox := by
      rw [hm]
      simp
    have hcreate : ¬ (received.type = MsgType.create ∧
        (socketFd, wireOf MsgType.rgAck claimed none) ∈ t.world.mem.outbox) :=
      fun h => absurd (htype.symm.trans h.1) (by decide)
    refine ⟨?_, ?_, hslot, ⟨i, u, hrec, hoff, by rw [hm]; rfl⟩, by rw [hm]; rfl⟩
    · rw [loggedInBy, acknowledged_recv hdec, if_pos ⟨htype, hsent⟩]
      rfl
    · rw [registeredBy, acknowledged_recv hdec, if_neg hcreate]
      rfl
  | @registered password htype hpw hroom hnew =>
    right; left
    have hbox : t.world.mem.outbox = [(socketFd, wireOf MsgType.rgAck claimed none)] := by
      rw [hm]
      rfl
    have hsent : (socketFd, wireOf MsgType.rgAck claimed none) ∈ t.world.mem.outbox := by
      rw [hbox]
      simp
    have hlogin : ¬ (received.type = MsgType.login ∧
        (socketFd, wireOf MsgType.loAck claimed none) ∈ t.world.mem.outbox) :=
      fun h => absurd (htype.symm.trans h.1) (by decide)
    refine ⟨password, ?_, ?_, hslot, hnew, hroom, by rw [hm]; rfl, by rw [hm]; rfl, hbox⟩
    · rw [loggedInBy, acknowledged_recv hdec, acknowledged_recv hdec, if_neg hlogin, if_pos ⟨htype, hsent⟩]
      rfl
    · rw [registeredBy, acknowledged_recv hdec, if_pos ⟨htype, hsent⟩, Option.bind_some,
        CStr.ofBytes?_eq_some.2 hpw]
      rfl
  | exited htype _ => exact Or.inr (Or.inr (hother _ htype (by decide) (by decide) (by simp)))
  | created htype _ _ _ _ => exact Or.inr (Or.inr (hother _ htype (by decide) (by decide) hsame))
  | joined htype _ _ _ _ => exact Or.inr (Or.inr (hother _ htype (by decide) (by decide) hsame))
  | leftOut htype _ _ => exact Or.inr (Or.inr (hother _ htype (by decide) (by decide) hsame))
  | leftReserved htype _ _ _ => exact Or.inr (Or.inr (hother _ htype (by decide) (by decide) hsame))
  | left htype _ _ _ => exact Or.inr (Or.inr (hother _ htype (by decide) (by decide) hsame))
  | relayed htype _ _ => exact Or.inr (Or.inr (hother _ htype (by decide) (by decide) hsame))
  | kicked htype _ _ _ => exact Or.inr (Or.inr (hother _ htype (by decide) (by decide) hsame))
  | promoted htype _ _ _ => exact Or.inr (Or.inr (hother _ htype (by decide) (by decide) hsame))

/-- An event accepts a login, a registration, or neither. -/
theorem Turn.login_cases {e : Event} (hturn : Turn s e t) :
    (∃ claimed, LogsIn s e t claimed) ∨ (∃ claimed password, Registers s e t claimed password) ∨ Neither s e t := by
  have hkept : ∀ {w : World Mutex Memory}, w.mem = s.clear.mem →
      Changed s.world.mem.users w.mem.users ∧ w.mem.file = s.world.mem.file := by
    intro w hmem
    rw [hmem]
    exact ⟨Changed.refl _, rfl⟩
  cases hturn with
  | @accepted socketFd garbage _ _ =>
    refine Or.inr (Or.inr ⟨rfl, rfl, fun c hc => ?_, Changed.refl _, rfl⟩)
    simp only [Event.socket, ServerState.setConn, Function.update_self, Slot.running.injEq] at hc
    rw [← hc]
    exact Or.inr ⟨rfl, socketFd, garbage, rfl⟩
  | @served socketFd chunk conn received claimed r w hconn hdec _ hserved =>
    have hslot : (s.setConn socketFd w (slotOf r)).conns socketFd = slotOf r := Function.update_self _ _ _
    exact (hserved.login_cases rfl hslot hconn hdec).imp (fun h => ⟨claimed, h⟩) (Or.imp_left fun h => ⟨claimed, h⟩)
  | @recvWaits socketFd chunk conn w _ _ hmem =>
    refine Or.inr (Or.inr ⟨by simp [loggedInBy, acknowledged_waits hmem], by simp [registeredBy, acknowledged_waits hmem],
      fun c hc => ?_, (hkept hmem).1, (hkept hmem).2⟩)
    simp [Event.socket, ServerState.setConn] at hc
  | @disconnected socketFd conn w _ _ hserved =>
    have hchanged : Changed s.world.mem.users w.mem.users ∧ w.mem.file = s.world.mem.file := by
      rcases hserved with ⟨-, hmem⟩ | ⟨-, hx⟩
      · exact hkept hmem
      · exact ⟨hx.changed, hx.file_eq⟩
    refine Or.inr (Or.inr ⟨rfl, rfl, fun c hc => ?_, hchanged.1, hchanged.2⟩)
    simp [Event.socket, ServerState.setConn] at hc
  | @disconnectWaits socketFd conn w _ _ hmem =>
    refine Or.inr (Or.inr ⟨rfl, rfl, fun c hc => ?_, (hkept hmem).1, (hkept hmem).2⟩)
    simp [Event.socket, ServerState.setConn] at hc

end Acknowledged

/-! ### Who owns an account -/

/-- The locals of a connection change only when it puts an account online that was offline, or new. -/
private theorem Served.puts_online {socketFd : Nat} {conn c : Conn} {received : Message} {claimed : CStr maxName}
    {m m' : Memory}
    (h : Served socketFd conn received claimed m (some c) m') :
    c = conn ∨ c = ⟨claimed, .online⟩ ∧ (∃ i u, Record m'.users claimed.bytes i u ∧ u.status = .online) ∧
      ∀ i u, Record m.users claimed.bytes i u → u.status = .offline := by
  cases h with
  | @loggedIn i u _ hrec hoff =>
    refine Or.inr ⟨rfl, ⟨i, u.login .online socketFd, hrec.modify_self fun _ => rfl, rfl⟩, fun j v hv => ?_⟩
    rw [(hv.unique hrec).2, hoff]
  | @registered password _ _ _ hnew =>
    refine Or.inr ⟨rfl, ⟨_, registeredUser claimed password socketFd, .append_new hnew rfl, rfl⟩, fun j v hv => ?_⟩
    cases hv.found.symm.trans hnew
  | _ => exact Or.inl rfl

/-- A connection that is logged in was so before the event, or the event has just put its account online. -/
theorem Turn.loggedIn {s t : ServerState} {e : Event} (hturn : Turn s e t) {fd : Nat} {c : Conn}
    (hconn : t.conns fd = .running c) (hon : c.serverConnectionStatus = .online) :
    s.conns fd = .running c ∨ fd = e.socket ∧
      (∃ i u, Record t.world.mem.users c.source.bytes i u ∧ u.status = .online) ∧
      ∀ i u, Record s.world.mem.users c.source.bytes i u → u.status = .offline := by
  by_cases hfd : fd = e.socket
  · subst hfd
    cases hturn with
    | accepted _ _ =>
      simp only [Event.socket, ServerState.setConn, Function.update_self, Slot.running.injEq] at hconn
      rw [← hconn] at hon
      cases hon
    | @served socketFd chunk conn received claimed r w hold hdec _ hserved =>
      simp only [Event.socket, ServerState.setConn, Function.update_self] at hconn
      cases r with
      | none => cases hconn
      | some c' =>
        obtain rfl : c' = c := Slot.running.inj hconn
        rcases hserved.puts_online with rfl | ⟨rfl, hrec, hoff⟩
        · exact Or.inl hold
        · exact Or.inr ⟨rfl, hrec, hoff⟩
    | recvWaits _ _ _ => simp [Event.socket, ServerState.setConn] at hconn
    | disconnected _ _ _ => simp [Event.socket, ServerState.setConn] at hconn
    | disconnectWaits _ _ _ => simp [Event.socket, ServerState.setConn] at hconn
  · rw [hturn.conns_ne (Ne.symm hfd)] at hconn
    exact Or.inl hconn

/-- Every connection that is logged in has an account that is online, and has it alone. -/
structure Owned (s : ServerState) : Prop where
  online : ∀ fd conn, s.conns fd = .running conn → conn.serverConnectionStatus = .online →
    ∃ i u, Record s.world.mem.users conn.source.bytes i u ∧ u.status = .online
  alone : ∀ fd fd' conn conn', s.conns fd = .running conn → s.conns fd' = .running conn' →
    conn.serverConnectionStatus = .online → conn'.serverConnectionStatus = .online →
    conn.source.bytes = conn'.source.bytes → fd = fd'

theorem Owned.turn {s t : ServerState} {e : Event} (h : Owned s) (hturn : Turn s e t) (hof : OfLoggedIn s e) :
    Owned t := by
  constructor
  · intro fd c hconn hon
    rcases hturn.loggedIn hconn hon with hold | ⟨-, hrec, -⟩
    · obtain ⟨i, u, hrec, hstatus⟩ := h.online fd c hold hon
      obtain ⟨u', hrec', hstatus' | ⟨⟨conn, hends, hsource, hby⟩, hclosed⟩⟩ := hturn.online hrec hstatus
      · exact ⟨i, u', hrec', hstatus'⟩
      · have honline : conn.serverConnectionStatus = .online := by
          rcases hby with hby | ⟨socketFd, chunk, p, rfl, hdec, htype⟩
          · exact hby
          · rcases hof conn (by rw [show s.conns socketFd = _ from hends]; rfl) p hdec with hby | hlogin | hcreate
            · exact hby
            · exact absurd (htype.symm.trans hlogin) (by decide)
            · exact absurd (htype.symm.trans hcreate) (by decide)
        have hfd := h.alone _ _ _ _ hends hold honline hon hsource
        rw [hfd, hconn] at hclosed
        cases hclosed
    · exact hrec
  · intro fd fd' c c' hconn hconn' hon hon' hsame
    rcases hturn.loggedIn hconn hon with hold | ⟨hfd, -, hnew⟩
    · rcases hturn.loggedIn hconn' hon' with hold' | ⟨-, -, hnew'⟩
      · exact h.alone _ _ _ _ hold hold' hon hon' hsame
      · obtain ⟨i, u, hrec, hstatus⟩ := h.online fd c hold hon
        have := hnew' i u (hsame ▸ hrec)
        rw [hstatus] at this
        cases this
    · rcases hturn.loggedIn hconn' hon' with hold' | ⟨hfd', -, -⟩
      · obtain ⟨i, u, hrec, hstatus⟩ := h.online fd' c' hold' hon'
        have := hnew i u (hsame ▸ hrec)
        rw [hstatus] at this
        cases this
      · exact hfd.trans hfd'.symm

theorem owned_of_reachable {s : ServerState} (hr : Reachable (server.when OfLoggedIn) s) : Owned s := by
  induction hr with
  | init h =>
    obtain ⟨file, users, -, rfl⟩ := h
    exact ⟨fun fd conn hconn => (by cases hconn), fun fd fd' conn conn' hconn => (by cases hconn)⟩
  | step _ hst ih => exact ih.turn (ServerState.turn hst.2) hst.1

end Conferencing
