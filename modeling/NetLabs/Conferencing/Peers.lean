import NetLabs.Conferencing.Loading
import NetLabs.Conferencing.Logins

/-!
# Whose connection a socket is

A record holds the number of a socket, and messages go to that number, whoever the connection on it belongs to by now.
`logPeers` records the connections beside the server, with the locals of their threads, also of a thread that waits for
a mutex for ever.  What is on the socket of a record then is a connection of its user, or one on which somebody else has
logged in later (`peered_of_reachable`).
-/

namespace Conferencing

open CText LockProg Transition

/-- The connections, by their sockets, with the locals of their threads. -/
abbrev Peers := Nat → Option Conn

/-- A thread that waits for ever keeps its locals, and its connection. -/
def logPeers (_ : ServerState) (e : Event) (t : ServerState) (peers : Peers) : Peers :=
  Function.update peers e.socket (match t.conns e.socket with
    | .closed => none
    | .running conn => some conn
    | .stuck => peers e.socket)

/-- The server with its connections. -/
abbrev peopled : System (ServerState × Peers) Event := server.recording (fun _ => none) logPeers

/-! ### Names -/

theorem Turn.names {s t : ServerState} {e : Event} (hturn : Turn s e t)
    (hnames : (s.world.mem.users.map User.name).Nodup) : (t.world.mem.users.map User.name).Nodup := by
  rcases hturn.stored with ⟨hchanged, -⟩ | ⟨username, password, socketFd, -, hnew, husers, -⟩
  · rw [names_of_accounts hchanged.accounts]
    exact hnames
  · rw [husers, List.map_append]
    exact nodup_append_new hnames hnew

theorem names_of_reachable {s : ServerState} (hr : Reachable server s) : (s.world.mem.users.map User.name).Nodup := by
  induction hr with
  | init h =>
    obtain ⟨file, users, hload, rfl⟩ := h
    exact hload.invariant (P := fun users => (users.map User.name).Nodup) List.nodup_nil fun _ _ _ => nodup_names_addUser
  | step _ hst ih => exact (ServerState.turn hst).names ih

/-- Records with the same name are the same record. -/
theorem eq_of_username {users : List User} (hnames : (users.map User.name).Nodup) {u v : User} (hu : u ∈ users)
    (hv : v ∈ users) (h : u.username = v.username) : u = v :=
  List.inj_on_of_nodup_map hnames hu hv (congrArg CStr.bytes h)

/-- With distinct usernames every record is found. -/
theorem record_of_mem {users : List User} {u : User} (hnames : (users.map User.name).Nodup) (hu : u ∈ users) :
    ∃ i, Record users u.name i u := by
  rcases record_or_none users u.name with h | ⟨i, v, hrec⟩
  · exact absurd h (Table.search_ne_none hu)
  · obtain rfl := List.inj_on_of_nodup_map hnames hrec.mem hu hrec.key_eq
    exact ⟨i, hrec⟩

/-! ### The sockets of the records -/

/-- The records are those of before, with their sockets or with none. -/
def SocketsKept (users users' : List User) : Prop :=
  ∀ u' ∈ users', ∃ u ∈ users, u'.name = u.name ∧ (u'.socketFd = u.socketFd ∨ u'.socketFd = offlineFd)

theorem SocketsKept.refl (users : List User) : SocketsKept users users := fun u hu => ⟨u, hu, rfl, Or.inl rfl⟩

section Sockets

variable {users : List User} {name : Bytes} {k : Nat} {u u' : User}

theorem Leaves.socket (h : Leaves users name k u u') : u'.socketFd = u.socketFd := by
  cases h <;> rfl

theorem Quits.socket (h : Quits users name k u u') : u'.socketFd = u.socketFd ∨ u'.socketFd = offlineFd := by
  cases h with
  | same _ => exact Or.inl rfl
  | out _ _ => exact Or.inr rfl
  | own _ _ _ => exact Or.inr rfl
  | last _ => exact Or.inl rfl

private theorem Exits.sockets {m m' : Memory} (h : Exits m name m') : SocketsKept m.users m'.users := by
  intro u' hu'
  obtain ⟨k, u, hk, hquit⟩ := h.quits.of_mem hu'
  exact ⟨u, List.mem_of_getElem? hk, hquit.name_eq, hquit.socket⟩

variable {socketFd : Nat} {conn : Conn} {received : Message} {claimed : CStr maxName} {m m' : Memory} {r : Option Conn}

/-- A request other than the two that log in. -/
private theorem Served.sockets (h : Served socketFd conn received claimed m r m')
    (hlogin : received.type ≠ MsgType.login)
    (hcreate : received.type ≠ MsgType.create) : SocketsKept m.users m'.users := by
  intro u' hu'
  rcases h.touched with hall | ⟨htype, -⟩
  · obtain ⟨k, u, hk, htouch⟩ := hall.of_mem hu'
    refine ⟨u, List.mem_of_getElem? hk, htouch.name_eq, ?_⟩
    cases htouch with
    | login htype _ _ => exact absurd htype hlogin
    | exit _ h => exact h.socket
    | leave _ h => exact Or.inl h.socket
    | _ => exact Or.inl rfl
  · exact absurd htype hcreate

/-- A connection goes on as it was, or it logs in, and then the record of its new name has its socket. -/
private theorem Served.peer (h : Served socketFd conn received claimed m r m')
    (hnames : (m.users.map User.name).Nodup) :
    (∀ c ∈ r, c = conn) ∧ SocketsKept m.users m'.users ∨
    r = some ⟨claimed, .online⟩ ∧ ∀ u' ∈ m'.users, u'.name = claimed.bytes ∧ u'.socketFd = socketFd ∨
      u' ∈ m.users ∧ u'.name ≠ claimed.bytes := by
  have hsame : ∀ c ∈ some conn, c = conn := fun c hc => (Option.some.inj hc).symm
  have hother : ∀ {type : UInt32}, received.type = type → type ≠ MsgType.login → type ≠ MsgType.create →
      SocketsKept m.users m'.users := by
    rintro type rfl hlogin hcreate
    exact h.sockets hlogin hcreate
  cases h with
  | answered _ _ _ => exact Or.inl ⟨hsame, .refl _⟩
  | echoed _ => exact Or.inl ⟨hsame, .refl _⟩
  | @loggedIn i u _ hrec _ =>
    refine Or.inr ⟨rfl, fun u' hu' => ?_⟩
    have hlogin : Table.Pointwise (fun k v v' => k = i ∧ v' = v.login .online socketFd ∨ k ≠ i ∧ v' = v) m.users
        (m.users.modify i (User.login .online socketFd)) :=
      .modify hrec.get (Or.inl ⟨rfl, rfl⟩) fun k v _ hk => Or.inr ⟨hk, rfl⟩
    obtain ⟨k, v, hk, ⟨rfl, rfl⟩ | ⟨hne, rfl⟩⟩ := hlogin.of_mem hu'
    · obtain rfl : u = v := Option.some.inj (hrec.get.symm.trans hk)
      exact Or.inl ⟨hrec.key_eq, rfl⟩
    · refine Or.inr ⟨List.mem_of_getElem? hk, fun hname => hne ?_⟩
      have hlen : k < (m.users.map User.name).length := by
        rw [List.length_map]
        exact (List.getElem?_eq_some_iff.1 hk).1
      refine (List.getElem?_inj hlen hnames).1 ?_
      rw [List.getElem?_map, List.getElem?_map, hk, hrec.get, Option.map_some, Option.map_some, hname]
      exact congrArg some hrec.key_eq.symm
  | @registered password _ _ _ hnew =>
    refine Or.inr ⟨rfl, fun u' hu' => ?_⟩
    rcases List.mem_append.1 hu' with hu' | hu'
    · exact Or.inr ⟨hu', Table.search_eq_none hnew hu'⟩
    · rw [List.mem_singleton.1 hu']
      exact Or.inl ⟨rfl, rfl⟩
  | exited htype _ => exact Or.inl ⟨fun c hc => (by cases hc), hother htype (by decide) (by decide)⟩
  | created htype _ _ _ _ => exact Or.inl ⟨hsame, hother htype (by decide) (by decide)⟩
  | joined htype _ _ _ _ => exact Or.inl ⟨hsame, hother htype (by decide) (by decide)⟩
  | leftOut _ _ _ => exact Or.inl ⟨hsame, .refl _⟩
  | leftReserved _ _ _ _ => exact Or.inl ⟨hsame, .refl _⟩
  | left htype _ _ _ => exact Or.inl ⟨hsame, hother htype (by decide) (by decide)⟩
  | relayed _ _ _ => exact Or.inl ⟨hsame, .refl _⟩
  | kicked htype _ _ _ => exact Or.inl ⟨hsame, hother htype (by decide) (by decide)⟩
  | promoted htype _ _ _ => exact Or.inl ⟨hsame, hother htype (by decide) (by decide)⟩

end Sockets

/-! ### Who has logged in on a socket since -/

/-- Names are ranked by the time of their last login: on the socket of a record its user is logged in, or somebody who
has logged in later. -/
def Ranked (users : List User) (peers : Peers) (rank : Bytes → Nat) : Prop :=
  ∀ u ∈ users, ∀ conn ∈ peers u.socketFd, conn.serverConnectionStatus = .online →
    conn.source.bytes = u.name ∨ rank u.name < rank conn.source.bytes

structure Peered (s : ServerState) (peers : Peers) : Prop where
  running : ∀ fd conn, s.conns fd = .running conn → peers fd = some conn
  offline : peers offlineFd = none
  ranked : ∃ (rank : Bytes → Nat) (clock : Nat), (∀ name, rank name ≤ clock) ∧ Ranked s.world.mem.users peers rank

section Ranked

variable {users users' : List User} {peers peers' : Peers} {rank : Bytes → Nat}

/-- Nobody logs in. -/
private theorem Ranked.kept (h : Ranked users peers rank) (hoffline : peers offlineFd = none)
    (hkept : SocketsKept users users')
    (hpeers : ∀ fd, ∀ conn ∈ peers' fd, conn ∈ peers fd ∨ conn.serverConnectionStatus = .offline) :
    Ranked users' peers' rank := by
  intro u' hu' conn hconn hon
  obtain ⟨u, hu, hname, hsocket⟩ := hkept u' hu'
  rcases hpeers _ _ hconn with hold | hoff
  · rcases hsocket with hsocket | hsocket
    · rw [hname]
      exact h u hu conn (hsocket ▸ hold) hon
    · rw [hsocket, hoffline] at hold
      cases hold
  · cases hoff.symm.trans hon

/-- Who logs in comes last. -/
theorem Ranked.login (h : Ranked users peers rank) {clock socketFd : Nat} {claimed : CStr maxName}
    (hclock : ∀ name, rank name ≤ clock)
    (husers : ∀ u' ∈ users', u'.name = claimed.bytes ∧ u'.socketFd = socketFd ∨ u' ∈ users ∧ u'.name ≠ claimed.bytes) :
    Ranked users' (Function.update peers socketFd (some ⟨claimed, .online⟩))
      (Function.update rank claimed.bytes (clock + 1)) := by
  intro u' hu' conn hconn hon
  rcases husers u' hu' with ⟨hname, hsocket⟩ | ⟨hu, hne⟩
  · rw [hsocket, Function.update_self] at hconn
    obtain rfl := Option.some.inj hconn
    exact Or.inl hname.symm
  · have hold := hclock u'.name
    by_cases hlast : conn.source.bytes = claimed.bytes
    · right
      rw [hlast, Function.update_self, Function.update_of_ne hne]
      omega
    · by_cases hsocket : u'.socketFd = socketFd
      · rw [hsocket, Function.update_self] at hconn
        obtain rfl := Option.some.inj hconn
        exact absurd rfl hlast
      · rw [Function.update_of_ne hsocket] at hconn
        rw [Function.update_of_ne hlast, Function.update_of_ne hne]
        exact h u' hu conn hconn hon

end Ranked

section Peered

variable {s t : ServerState} {peers : Peers} {e : Event}

private theorem logPeers_of_ne {fd : Nat} (h : fd ≠ e.socket) : logPeers s e t peers fd = peers fd :=
  Function.update_of_ne h _ _

/-- The connections of threads whose locals are as they were. -/
private theorem mem_logPeers (hsame : ∀ conn, t.conns e.socket = .running conn →
    peers e.socket = some conn ∨ conn.serverConnectionStatus = .offline) {fd : Nat} {conn : Conn}
    (h : conn ∈ logPeers s e t peers fd) : conn ∈ peers fd ∨ conn.serverConnectionStatus = .offline := by
  by_cases hfd : fd = e.socket
  · subst hfd
    simp only [logPeers, Function.update_self] at h
    cases hslot : t.conns e.socket with
    | closed =>
      rw [hslot] at h
      cases h
    | running c =>
      rw [hslot] at h
      obtain rfl := Option.some.inj h
      exact hsame _ hslot
    | stuck =>
      rw [hslot] at h
      exact Or.inl h
  · rw [logPeers_of_ne hfd] at h
    exact Or.inl h

theorem Peered.turn (h : Peered s peers) (hnames : (s.world.mem.users.map User.name).Nodup) (hturn : Turn s e t) :
    Peered t (logPeers s e t peers) := by
  obtain ⟨rank, clock, hclock, hranked⟩ := h.ranked
  have hsocket : ∀ fd conn, s.conns fd = .running conn → offlineFd ≠ fd := by
    rintro fd conn hconn rfl
    cases h.offline.symm.trans (h.running _ _ hconn)
  refine ⟨fun fd conn hconn => ?_, ?_, ?_⟩
  · by_cases hfd : fd = e.socket
    · subst hfd
      rw [logPeers, Function.update_self, hconn]
    · rw [logPeers_of_ne hfd]
      exact h.running _ _ (hturn.conns_ne (Ne.symm hfd) ▸ hconn)
  · -- no event is about this socket
    have hne : offlineFd ≠ e.socket := by
      cases hturn with
      | accepted hne _ => exact hne.symm
      | served hconn _ _ _ => exact hsocket _ _ hconn
      | recvWaits hconn _ _ => exact hsocket _ _ hconn
      | disconnected hconn _ _ => exact hsocket _ _ hconn
      | disconnectWaits hconn _ _ => exact hsocket _ _ hconn
    rw [logPeers_of_ne hne]
    exact h.offline
  · have hkept : SocketsKept s.world.mem.users t.world.mem.users → (∀ conn, t.conns e.socket = .running conn →
        peers e.socket = some conn ∨ conn.serverConnectionStatus = .offline) →
        ∃ (rank : Bytes → Nat) (clock : Nat), (∀ name, rank name ≤ clock) ∧
          Ranked t.world.mem.users (logPeers s e t peers) rank :=
      fun hsockets hsame => ⟨rank, clock, hclock, hranked.kept h.offline hsockets fun _ _ => mem_logPeers hsame⟩
    have hwaits : ∀ {w : World Mutex Memory}, w.mem = s.clear.mem → SocketsKept s.world.mem.users w.mem.users := by
      intro w hmem
      rw [hmem]
      exact .refl _
    cases hturn with
    | accepted _ _ =>
      refine hkept (.refl _) fun conn hconn => Or.inr ?_
      simp only [Event.socket, ServerState.setConn, Function.update_self, Slot.running.injEq] at hconn
      rw [← hconn]
    | @served socketFd chunk conn received claimed r w hconn hdec hrun hserved =>
      rcases hserved.peer hnames with ⟨hr, hsockets⟩ | ⟨rfl, husers⟩
      · refine hkept hsockets fun c hc => Or.inl ?_
        simp only [Event.socket, ServerState.setConn, Function.update_self] at hc
        cases r with
        | none => cases hc
        | some c' =>
          obtain rfl : c' = c := Slot.running.inj hc
          exact (h.running _ _ hconn).trans (congrArg some (hr c' rfl).symm)
      · refine ⟨Function.update rank claimed.bytes (clock + 1), clock + 1, fun name => ?_, ?_⟩
        · by_cases hname : name = claimed.bytes
          · rw [hname, Function.update_self]
          · rw [Function.update_of_ne hname]
            exact Nat.le_succ_of_le (hclock name)
        · have hlog : logPeers s (.recv socketFd chunk) (s.setConn socketFd w (slotOf (some ⟨claimed, .online⟩))) peers =
              Function.update peers socketFd (some ⟨claimed, .online⟩) := by
            simp only [logPeers, Event.socket, ServerState.setConn, Function.update_self, slotOf]
          rw [hlog]
          exact hranked.login hclock husers
    | recvWaits _ _ hmem =>
      refine hkept (hwaits hmem) fun conn hconn => ?_
      simp [Event.socket, ServerState.setConn] at hconn
    | disconnected _ _ hserved =>
      refine hkept ?_ fun conn hconn => ?_
      · rcases hserved with ⟨-, hmem⟩ | ⟨-, hx⟩
        · exact hwaits hmem
        · exact hx.sockets
      · simp [Event.socket, ServerState.setConn] at hconn
    | disconnectWaits _ _ hmem =>
      refine hkept (hwaits hmem) fun conn hconn => ?_
      simp [Event.socket, ServerState.setConn] at hconn

theorem peered_of_reachable {p : ServerState × Peers} (hr : Reachable peopled p) : Peered p.1 p.2 := by
  induction hr with
  | @init p h =>
    obtain ⟨⟨file, users, -, hstart⟩, hempty⟩ := h
    rw [hstart, hempty]
    exact ⟨fun fd conn hconn => (by cases hconn), rfl, fun _ => 0, 0, fun _ => Nat.le_refl 0,
      fun _ _ _ hconn => (by cases hconn)⟩
  | @step p q e hr hst ih =>
    rw [hst.2]
    exact ih.turn (names_of_reachable hr.of_recording) (ServerState.turn hst.1)

end Peered

end Conferencing
