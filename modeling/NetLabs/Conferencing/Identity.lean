import NetLabs.Conferencing.Relay

/-!
# Whom a request acts for

A connection remembers the name under which it has logged in, but the handler does not ask whether it has, and a chat
message is sent under the name that it contains.  Before a login the requests that use the remembered name read an
uninitialised array (`before_login`), and a chat message is bound to its sender only when it names its sender, and the
sockets in the records of its session have not come to others (`sender_bound`).
-/

namespace Conferencing

open CText LockProg Transition

/-! ### Before the login -/

/-- The name whose record a request uses without a check that there is one. -/
def usedName (conn : Conn) (received : Message) (claimed : CStr maxName) : Option (CStr maxName) :=
  if received.type = MsgType.exit ∨ received.type = MsgType.leaveSess ∨ received.type = MsgType.kick ∨
      received.type = MsgType.promote then some conn.source
  else if received.type = MsgType.join ∨ received.type = MsgType.newSess then
    received.data.text?.map fun _ => conn.source
  else if received.type = MsgType.message then some claimed
  else none

/-- The table is as it was, and no other connection has been sent anything. -/
def Silent (s : ServerState) (socketFd : Nat) (m : Memory) : Prop :=
  m.users = s.world.mem.users ∧ ∀ p ∈ m.outbox, p.1 = socketFd ∨ s.conns p.1 = .closed

/-- Serving a message logs its connection in or is silent, and is not undefined for want of a record. -/
def Unharmed (s : ServerState) (socketFd : Nat) (conn : Conn) (chunk : Bytes) : Prop :=
  match serve socketFd conn chunk s.clear with
  | .ret r w => (∃ c, r = some c ∧ c.serverConnectionStatus = .online) ∨ Silent s socketFd w.mem
  | .blocked w => Silent s socketFd w.mem
  | .fault => ∀ p ∈ decode (recvBuffer chunk), ∀ name ∈ usedName conn p.1 p.2,
      databaseSearchUser s.world.mem.users name.bytes ≠ none

/-- A message that does not act under the name of its connection, unless it waits for a mutex for ever, and is not a
chat message that reaches another connection. -/
def Harmless (s : ServerState) (socketFd : Nat) (received : Message) (claimed : CStr maxName) : Prop :=
  if received.type = MsgType.exit then False
  else if received.type = MsgType.leaveSess ∨ received.type = MsgType.kick ∨ received.type = MsgType.promote then
    s.world.held .userList = true
  else if received.type = MsgType.join ∨ received.type = MsgType.newSess then
    received.data.text? = none ∨ s.world.held .userList = true ∨ s.world.held .rw = true
  else if received.type = MsgType.message then
    ∃ i u, Record s.world.mem.users claimed.bytes i u ∧ (s.world.held .userList = true ∨
      ∀ v ∈ recipients s.world.mem.users u.sessionId.bytes, v.socketFd = socketFd ∨ s.conns v.socketFd = .closed)
  else True

/-- The same of a received chunk. -/
def HarmlessChunk (s : ServerState) (socketFd : Nat) (chunk : Bytes) : Prop :=
  ∀ p ∈ decode (recvBuffer chunk), Harmless s socketFd p.1 p.2

/-- A table that is not longer than the server allows lacks a name. -/
private theorem exists_unknown {users : List User} (hroom : users.length ≤ maxUserCount) :
    ∃ name : CStr maxName, databaseSearchUser users name.bytes = none := by
  -- the names of one byte, of which there are more than enough
  have hbyte : ∀ k ∈ List.range 101, (UInt8.ofNat (k + 1)).toNat = k + 1 := by
    intro k hk
    have := List.mem_range.1 hk
    simp only [UInt8.toNat_ofNat']
    omega
  have hnodup : ((List.range 101).map fun k => [UInt8.ofNat (k + 1)]).Nodup := by
    apply List.nodup_range.map_on
    intro a ha b hb h
    have := congrArg UInt8.toNat (List.singleton_inj.1 h)
    rw [hbyte a ha, hbyte b hb] at this
    omega
  have hlt : users.length < ((List.range 101).map fun k => [UInt8.ofNat (k + 1)]).length := by
    have hmax : maxUserCount = 100 := rfl
    simp only [List.length_map, List.length_range]
    omega
  obtain ⟨name, hname, hnone⟩ : ∃ name ∈ _, databaseSearchUser users name = none :=
    Table.exists_search_none hnodup hlt
  obtain ⟨k, hk, rfl⟩ := List.mem_map.1 hname
  refine ⟨⟨[UInt8.ofNat (k + 1)], ?_, by simp⟩, hnone⟩
  rw [List.mem_singleton]
  intro h
  have := congrArg UInt8.toNat h
  rw [hbyte k hk] at this
  cases this

section BeforeLogin

variable {s : ServerState} {socketFd : Nat} {conn : Conn} {chunk : Bytes} {received : Message}
  {claimed name : CStr maxName} {w : World Mutex Memory}

private theorem silent_clear (s : ServerState) (socketFd : Nat) : Silent s socketFd s.clear.mem :=
  ⟨rfl, fun _ h => absurd h List.not_mem_nil⟩

/-- What a silent request sends, it sends to its own connection. -/
private theorem silent_sent (s : ServerState) (socketFd : Nat) (bytes : Bytes) :
    Silent s socketFd (s.clear.mem.sent socketFd bytes) := by
  refine ⟨rfl, fun p hp => Or.inl ?_⟩
  have hp : p ∈ [(socketFd, bytes)] := hp
  rw [List.mem_singleton.1 hp]

private theorem unharmed_of_yields (hdec : decode (recvBuffer chunk) = some (received, claimed))
    (hyields : (serve socketFd conn chunk s.clear).Yields s.clear.mem fun r m' =>
      (∃ c, r = some c ∧ c.serverConnectionStatus = .online) ∨ Silent s socketFd m')
    (hused : usedName conn received claimed = none) : Unharmed s socketFd conn chunk := by
  unfold Unharmed
  cases hrun : serve socketFd conn chunk s.clear with
  | ret r w =>
    rw [hrun] at hyields
    exact hyields
  | blocked w =>
    rw [hrun] at hyields
    have hmem : w.mem = s.clear.mem := hyields
    change Silent s socketFd w.mem
    rw [hmem]
    exact silent_clear s socketFd
  | fault =>
    intro p hp name hname
    rw [Option.mem_def, hdec, Option.some.injEq] at hp
    rw [← hp, hused] at hname
    cases hname

private theorem unharmed_of_blocked (hrun : serve socketFd conn chunk s.clear = .blocked w)
    (hmem : w.mem = s.clear.mem) :
    Unharmed s socketFd conn chunk := by
  simp only [Unharmed, hrun, hmem]
  exact silent_clear s socketFd

private theorem not_unharmed (hdec : decode (recvBuffer chunk) = some (received, claimed))
    (hrun : serve socketFd conn chunk s.clear = .fault) (hused : usedName conn received claimed = some name)
    (hnone : databaseSearchUser s.world.mem.users name.bytes = none) : ¬ Unharmed s socketFd conn chunk := by
  simp only [Unharmed, hrun]
  intro h
  exact h _ hdec name hused hnone

/-! The requests that lock `user_list_mutex` first wait for it. -/

theorem leave_waits (h : w.held .userList = true) (name : CStr maxName) : serverSideSessionLeave name w = .blocked w := by
  simp [serverSideSessionLeave, run_lock_held h]

theorem withTarget_waits (h : w.held .userList = true) (nak : UInt32) (sender : CStr maxName) (target : Bytes)
    (grant : Option Nat → Option Nat → Handler Unit) : withTarget nak sender target grant w = .blocked w := by
  simp [withTarget, run_lock_held h]

/-- `server_side_session_join` and `server_side_session_create` lock both mutexes before they use the record. -/
private theorem counting_waits (h : w.held .userList = true ∨ w.held .rw = true) (name : Bytes) (sessionId : Bytes)
    (f : Option Nat → Nat → Handler Unit) : ∃ w', (do
      lock .userList
      let p ← read fun m => databaseSearchUser m.users name
      let count ← getUserCountInASession sessionId
      f p count : Handler Unit) w = .blocked w' ∧ w'.mem = w.mem := by
  cases hul : w.held .userList with
  | true => exact ⟨w, by simp [run_lock_held hul], rfl⟩
  | false =>
    have hrw : (w.acquire .userList).held .rw = true := by
      rw [hul] at h
      rw [w.held_acquire_of_ne (by decide)]
      exact h.resolve_left Bool.false_ne_true
    exact ⟨w.acquire .userList, by simp [run_lock hul, run_getUserCountInASession_held hrw], rfl⟩

/-! The types, one after the other. -/

private theorem exit_iff (hdec : decode (recvBuffer chunk) = some (received, claimed))
    (htype : received.type = MsgType.exit) (hroom : s.world.mem.users.length ≤ maxUserCount) :
    ¬ ∀ garbage, Unharmed s socketFd ⟨garbage, .offline⟩ chunk := by
  obtain ⟨name, hnone⟩ := exists_unknown hroom
  intro h
  refine not_unharmed hdec ?_ ?_ hnone (h name)
  · rw [serve_exit hdec htype, exit_notFound (w := s.clear) hnone]
    rfl
  · simp [usedName, htype]

/-- The requests that use the record of their connection, once `user_list_mutex` is theirs. -/
private theorem locked_iff (hdec : decode (recvBuffer chunk) = some (received, claimed))
    (htype : received.type = MsgType.leaveSess ∨ received.type = MsgType.kick ∨ received.type = MsgType.promote)
    (hroom : s.world.mem.users.length ≤ maxUserCount) :
    (∀ garbage, Unharmed s socketFd ⟨garbage, .offline⟩ chunk) ↔ s.world.held .userList = true := by
  have hused : ∀ garbage, usedName ⟨garbage, .offline⟩ received claimed = some garbage := by
    intro garbage
    rw [usedName, if_pos (Or.inr htype)]
  constructor
  · intro h
    by_contra hheld
    have hul : s.clear.held .userList = false := Bool.eq_false_iff.2 hheld
    obtain ⟨name, hnone⟩ := exists_unknown hroom
    refine not_unharmed hdec ?_ (hused name) hnone (h name)
    have hnone : databaseSearchUser s.clear.mem.users name.bytes = none := hnone
    rcases htype with htype | htype | htype
    · simp [serve_leave hdec htype, leave_notFound hnone, hul]
    · simp [serve_kick hdec htype, serverSideKickUser, withTarget_notFound hnone, hul]
    · simp [serve_promote hdec htype, serverSidePromoteUser, withTarget_notFound hnone, hul]
  · intro hheld garbage
    have hul : s.clear.held .userList = true := hheld
    refine unharmed_of_blocked (w := s.clear) ?_ rfl
    rcases htype with htype | htype | htype
    · rw [serve_leave hdec htype, leave_waits hul]
      rfl
    · rw [serve_kick hdec htype, serverSideKickUser, withTarget_waits hul]
      rfl
    · rw [serve_promote hdec htype, serverSidePromoteUser, withTarget_waits hul]
      rfl

/-- The requests that count the users of a session first. -/
private theorem counting_iff (hdec : decode (recvBuffer chunk) = some (received, claimed))
    (htype : received.type = MsgType.join ∨ received.type = MsgType.newSess)
    (hroom : s.world.mem.users.length ≤ maxUserCount) :
    (∀ garbage, Unharmed s socketFd ⟨garbage, .offline⟩ chunk) ↔
      received.data.text? = none ∨ s.world.held .userList = true ∨ s.world.held .rw = true := by
  have hother : ¬ (received.type = MsgType.exit ∨ received.type = MsgType.leaveSess ∨ received.type = MsgType.kick ∨
      received.type = MsgType.promote) := by
    rcases htype with htype | htype <;> rw [htype] <;> decide
  have hused : ∀ garbage, usedName ⟨garbage, .offline⟩ received claimed = received.data.text?.map fun _ => garbage := by
    intro garbage
    rw [usedName, if_neg hother, if_pos htype]
  cases hdata : received.data.text? with
  | none =>
    refine iff_of_true (fun garbage => ?_) (Or.inl rfl)
    refine unharmed_of_yields hdec ?_ (by rw [hused, hdata]; rfl)
    rw [serve_unclosed hdec htype hdata]
    trivial
  | some text =>
    simp only [reduceCtorEq, false_or]
    constructor
    · intro h
      by_contra hheld
      simp only [not_or, Bool.not_eq_true] at hheld
      obtain ⟨name, hnone⟩ := exists_unknown hroom
      refine not_unharmed hdec ?_ (by rw [hused, hdata]; rfl) hnone (h name)
      have hnone : databaseSearchUser s.clear.mem.users name.bytes = none := hnone
      have hheld : s.clear.held .userList = false ∧ s.clear.held .rw = false := hheld
      rcases htype with htype | htype
      · simp [serve_join hdec htype hdata, join_notFound hnone, hheld.1, hheld.2]
      · simp [serve_create hdec htype hdata, create_notFound hnone, hheld.1, hheld.2]
    · intro hheld garbage
      have hheld : s.clear.held .userList = true ∨ s.clear.held .rw = true := hheld
      rcases htype with htype | htype
      · obtain ⟨w, hrun, hmem⟩ := counting_waits hheld garbage.bytes text.bytes _
        refine unharmed_of_blocked ?_ hmem
        rw [serve_join hdec htype hdata, serverSideSessionJoin, hrun]
        rfl
      · obtain ⟨w, hrun, hmem⟩ := counting_waits hheld garbage.bytes text.bytes _
        refine unharmed_of_blocked ?_ hmem
        rw [serve_create hdec htype hdata, serverSideSessionCreate, hrun]
        rfl

private theorem message_iff (hdec : decode (recvBuffer chunk) = some (received, claimed))
    (htype : received.type = MsgType.message) (garbage : CStr maxName) :
    Unharmed s socketFd ⟨garbage, .offline⟩ chunk ↔
      ∃ i u, Record s.world.mem.users claimed.bytes i u ∧ (s.world.held .userList = true ∨
        ∀ v ∈ recipients s.world.mem.users u.sessionId.bytes,
          v.socketFd = socketFd ∨ s.conns v.socketFd = .closed) := by
  have hsize : received.size.toNat ≤ maxData := (decode_eq_some hdec).2.2
  have hused : usedName ⟨garbage, .offline⟩ received claimed = some claimed := by
    simp only [usedName, htype]
    rfl
  rcases record_or_none s.world.mem.users claimed.bytes with hnone | ⟨i, u, hrec⟩
  · refine iff_of_false (not_unharmed hdec ?_ hused hnone) ?_
    · rw [serve_eq hdec, message_notFound (w := s.clear) htype hsize _ hnone]
    · rintro ⟨i, u, hrec, -⟩
      cases hnone.symm.trans hrec.found
  · rw [hrec.exists_iff]
    have hrun : serve socketFd ⟨garbage, .offline⟩ chunk s.clear = _ := serve_message hdec htype hsize hrec
    cases hheld : s.world.held .userList with
    | true =>
      rw [if_pos (show s.clear.held .userList = true from hheld)] at hrun
      exact iff_of_true (unharmed_of_blocked hrun rfl) (Or.inl rfl)
    | false =>
      rw [if_neg (show ¬ s.clear.held .userList = true from fun h => by cases hheld.symm.trans h)] at hrun
      simp only [Unharmed, hrun, Option.some.injEq, exists_eq_left', reduceCtorEq, Bool.false_eq_true, false_or, Silent]
      constructor
      · rintro ⟨-, hbox⟩ v hv
        exact hbox (v.socketFd, _) (List.mem_map_of_mem hv)
      · intro h
        refine ⟨rfl, fun p hp => ?_⟩
        obtain ⟨v, hv, rfl⟩ := List.mem_map.1 hp
        exact h v hv

/-- The requests that use no record without a check. -/
private theorem unharmed_of_other (hdec : decode (recvBuffer chunk) = some (received, claimed))
    (hused : usedName conn received claimed = none)
    (htype : received.type = MsgType.login ∨ received.type = MsgType.create ∨ received.type = MsgType.query ∨
      received.type = MsgType.sessQuery ∨ received.type ∉ requests) : Unharmed s socketFd conn chunk := by
  refine unharmed_of_yields hdec ?_ hused
  rw [serve_eq hdec]
  rcases htype with htype | htype | htype | htype | htype
  · refine (verification_yields htype _).mono ?_
    intro r m' h
    rcases h with ⟨-, -, -, -, -, -, rfl, -⟩ | ⟨-, data, rfl⟩
    · exact Or.inl ⟨_, rfl, rfl⟩
    · exact Or.inr (silent_sent _ _ _)
  · refine (registration_yields htype _).mono ?_
    intro r m' h
    rcases h with ⟨-, -, -, -, -, -, rfl, -⟩ | ⟨-, data, rfl⟩
    · exact Or.inl ⟨_, rfl, rfl⟩
    · exact Or.inr (silent_sent _ _ _)
  · refine (query_yields htype _).mono ?_
    intro r m' h
    obtain ⟨-, data, rfl⟩ := h
    exact Or.inr (silent_sent _ _ _)
  · refine (sessQuery_yields htype _).mono ?_
    intro r m' h
    obtain ⟨-, type, data, -, rfl⟩ := h
    exact Or.inr (silent_sent _ _ _)
  · refine (echo_yields htype _).mono ?_
    intro r m' h
    obtain ⟨-, rfl⟩ := h
    exact Or.inr (silent_sent _ _ _)

private theorem harmless_iff (hdec : decode (recvBuffer chunk) = some (received, claimed))
    (hroom : s.world.mem.users.length ≤ maxUserCount) :
    (∀ garbage, Unharmed s socketFd ⟨garbage, .offline⟩ chunk) ↔ Harmless s socketFd received claimed := by
  unfold Harmless
  split
  · rename_i hexit
    exact iff_of_false (exit_iff hdec hexit hroom) id
  · rename_i hexit
    split
    · rename_i hlocked
      exact locked_iff hdec hlocked hroom
    · rename_i hlocked
      split
      · rename_i hcounting
        exact counting_iff hdec hcounting hroom
      · rename_i hcounting
        split
        · rename_i hmessage
          constructor
          · intro h
            exact (message_iff hdec hmessage claimed).1 (h claimed)
          · intro h garbage
            exact (message_iff hdec hmessage garbage).2 h
        · rename_i hmessage
          simp only [iff_true]
          intro garbage
          refine unharmed_of_other hdec ?_ ?_
          · rw [usedName, if_neg (not_or.2 ⟨hexit, hlocked⟩), if_neg hcounting, if_neg hmessage]
          · simp only [not_or] at hlocked hcounting
            simp only [requests, List.mem_cons, List.not_mem_nil, hexit, hlocked, hcounting, hmessage]
            tauto

private theorem harmlessChunk_iff (hroom : s.world.mem.users.length ≤ maxUserCount) (socketFd : Nat) (chunk : Bytes) :
    (∀ garbage, Unharmed s socketFd ⟨garbage, .offline⟩ chunk) ↔ HarmlessChunk s socketFd chunk := by
  unfold HarmlessChunk
  cases hdec : decode (recvBuffer chunk) with
  | none =>
    refine iff_of_true (fun garbage => ?_) fun _ h => by cases h
    have hrun : serve socketFd ⟨garbage, .offline⟩ chunk s.clear = .fault := by
      simp [serve, hdec]
    simp only [Unharmed, hrun, hdec]
    intro _ h
    cases h
  | some p =>
    rw [harmless_iff hdec hroom]
    constructor
    · intro h q hq
      obtain rfl : p = q := Option.some.inj hq
      exact h
    · intro h
      exact h p rfl

end BeforeLogin

/-- A harmless message is served before its connection has logged in, and does not log it in. -/
def HarmlessTurn (socketFd : Nat) (s t : ServerState) : Prop :=
  ∃ garbage chunk, s.conns socketFd = .running ⟨garbage, .offline⟩ ∧ HarmlessChunk s socketFd chunk ∧
    s.next (.recv socketFd chunk) = some t ∧
    ∀ c, t.conns socketFd = .running c → c.serverConnectionStatus = .offline

theorem HarmlessTurn.silent {socketFd : Nat} {s t : ServerState} (h : HarmlessTurn socketFd s t)
    (hroom : s.world.mem.users.length ≤ maxUserCount) :
    Silent s socketFd t.world.mem ∧ ∀ fd, fd ≠ socketFd → t.conns fd = s.conns fd := by
  obtain ⟨garbage, chunk, hconn, hharmless, hnext, hafter⟩ := h
  have hunharmed := (harmlessChunk_iff hroom socketFd chunk).2 hharmless garbage
  have hother : ∀ w slot fd, fd ≠ socketFd → (s.setConn socketFd w slot).conns fd = s.conns fd := by
    intro w slot fd hfd
    simp [ServerState.setConn, hfd]
  simp only [ServerState.next, hconn, Option.ite_none_right_eq_some] at hnext
  obtain ⟨-, hnext⟩ := hnext
  unfold Unharmed at hunharmed
  cases hrun : serve socketFd ⟨garbage, .offline⟩ chunk s.clear with
  | ret r w =>
    rw [hrun] at hnext hunharmed
    cases r with
    | none =>
      obtain rfl := Option.some.inj hnext
      refine ⟨hunharmed.resolve_left ?_, hother w _⟩
      rintro ⟨c, hc, -⟩
      cases hc
    | some c =>
      obtain rfl := Option.some.inj hnext
      refine ⟨hunharmed.resolve_left ?_, hother w _⟩
      rintro ⟨c', hc, hon⟩
      obtain rfl : c = c' := Option.some.inj hc
      have hoff := hafter c (by simp [ServerState.setConn])
      cases hon.symm.trans hoff
  | blocked w =>
    rw [hrun] at hnext hunharmed
    obtain rfl := Option.some.inj hnext
    exact ⟨hunharmed, hother w _⟩
  | fault =>
    rw [hrun] at hnext
    cases hnext

/-- A connection that is logged in as a user in the session. -/
def MemberOf (users : List User) (id : CStr maxSessionLength) (conn : Conn) : Prop :=
  conn.serverConnectionStatus = .online ∧
    ∃ i u, Record users conn.source.bytes i u ∧ u.inSession = .online ∧ u.sessionId = id

/-- Everything that is sent carries the name `source`, and what arrives on a connection arrives at a user in the session
that `own` is in. -/
def Bound (users : List User) (peers : Peers) (source : CStr maxName) (own : User) (m : Memory) : Prop :=
  ∀ p ∈ m.outbox, (∃ message, decode (recvBuffer p.2) = some (message, source)) ∧
    ∀ conn ∈ peers p.1, own.inSession = .online ∧ MemberOf users own.sessionId conn

/-- A chat message of the user `own`, logged in as `source`, finds its sender and is sent in its sender's name to its
sender's session. -/
def SpeaksAs (users : List User) (peers : Peers) (source : CStr maxName) (own : User) :
    Outcome Mutex Memory (Option Conn) → Prop
  | .ret _ w => Bound users peers source own w.mem
  | .blocked w => Bound users peers source own w.mem
  | .fault => False

/-- Every connection under the socket of an online member of the session of `own` is that of a user in this session, and
`own` is in it. -/
def AmongThemselves (users : List User) (peers : Peers) (own : User) : Prop :=
  ∀ u ∈ recipients users own.sessionId.bytes, ∀ conn ∈ peers u.socketFd,
    own.inSession = .online ∧ MemberOf users own.sessionId conn

section Chat

variable {users : List User} {peers : Peers} {source claimed : CStr maxName} {own v : User} {n : UInt32}
  {text : CStr maxData} {i j : Nat}

private theorem bound_nil {m : Memory} (h : m.outbox = []) : Bound users peers source own m := by
  intro p hp
  rw [h] at hp
  cases hp

/-- A relayed message is bound to its sender when nobody receives it, or when it names its sender and the sockets of the
members are theirs. -/
private theorem bound_relayed {m : Memory} (hempty : m.outbox = []) (hown : Record users source.bytes i own)
    (hrec : Record users claimed.bytes j v) (hcolon : colon ∉ claimed.bytes)
    (hsize : n.toNat = text.bytes.length + 1 ∨ n = 0 ∧ text.bytes = []) :
    Bound users peers source own (m.sentAll (recipients users v.sessionId.bytes) (chatWire n claimed text)) ↔
      recipients users v.sessionId.bytes = [] ∨ claimed = source ∧ AmongThemselves users peers own := by
  obtain ⟨message, hdec, -⟩ := decode_chatWire hcolon hsize
  have hbox : (m.sentAll (recipients users v.sessionId.bytes) (chatWire n claimed text)).outbox =
      (recipients users v.sessionId.bytes).map fun u => (u.socketFd, chatWire n claimed text) := by
    simp [Memory.sentAll, hempty]
  have hsent : ∀ u ∈ recipients users v.sessionId.bytes, (u.socketFd, chatWire n claimed text) ∈
      (m.sentAll (recipients users v.sessionId.bytes) (chatWire n claimed text)).outbox := by
    intro u hu
    rw [hbox]
    exact List.mem_map_of_mem hu
  constructor
  · intro h
    by_cases hnil : recipients users v.sessionId.bytes = []
    · exact Or.inl hnil
    · right
      obtain ⟨u, hu⟩ := List.exists_mem_of_ne_nil _ hnil
      obtain ⟨⟨message', hdec'⟩, -⟩ := h _ (hsent u hu)
      rw [hdec, Option.some.injEq, Prod.mk.injEq] at hdec'
      obtain ⟨-, rfl⟩ := hdec'
      obtain ⟨-, rfl⟩ := hown.unique hrec
      exact ⟨rfl, fun u hu => (h _ (hsent u hu)).2⟩
  · intro h p hp
    rw [hbox] at hp
    obtain ⟨u, hu, rfl⟩ := List.mem_map.1 hp
    rcases h with hnil | ⟨rfl, hamong⟩
    · rw [hnil] at hu
      cases hu
    · obtain ⟨-, rfl⟩ := hown.unique hrec
      exact ⟨⟨message, hdec⟩, hamong u hu⟩

end Chat

/-- A chat message of a connection that is logged in finds its sender, is relayed in the name of the connection and
reaches only the session of its user, if and only if the name that it claims is in the table and either the message
waits for `user_list_mutex`, or nobody is online in the session of the claimed name, or the claimed name is that of the
connection and the connections under the sockets of the members are those of users in the session. -/
theorem sender_bound {s : ServerState} {peers : Peers} (hr : Reachable peopled (s, peers)) {socketFd : Nat} {conn : Conn}
    (hconn : s.conns socketFd = .running conn) (hon : conn.serverConnectionStatus = .online) :
    ∃ i own, Record s.world.mem.users conn.source.bytes i own ∧
      ∀ chunk received claimed, decode (recvBuffer chunk) = some (received, claimed) →
        received.type = MsgType.message →
        (SpeaksAs s.world.mem.users peers conn.source own (serve socketFd conn chunk s.clear) ↔
          ∃ j v, Record s.world.mem.users claimed.bytes j v ∧ (s.world.held .userList = true ∨
            recipients s.world.mem.users v.sessionId.bytes = [] ∨
            claimed = conn.source ∧ AmongThemselves s.world.mem.users peers own)) := by
  obtain ⟨⟨i, own, hown⟩, -⟩ := record_of_reachable hr.of_recording hconn hon
  refine ⟨i, own, hown, fun chunk received claimed hdec htype => ?_⟩
  obtain ⟨-, hcolon, hsize⟩ := decode_eq_some hdec
  rcases record_or_none s.world.mem.users claimed.bytes with hnone | ⟨j, v, hrec⟩
  · rw [serve_eq hdec, message_notFound (w := s.clear) htype hsize _ hnone]
    apply iff_of_false id
    rintro ⟨j, v, hrec, -⟩
    cases hnone.symm.trans hrec.found
  · rw [serve_message (w := s.clear) hdec htype hsize hrec, hrec.exists_iff]
    cases hheld : s.world.held .userList with
    | true =>
      rw [if_pos (show s.clear.held .userList = true from hheld)]
      exact iff_of_true (bound_nil rfl) (Or.inl rfl)
    | false =>
      rw [if_neg (show ¬ s.clear.held .userList = true from fun h => by cases hheld.symm.trans h)]
      simp only [Bool.false_eq_true, false_or]
      exact bound_relayed (m := s.clear.mem) rfl hown hrec hcolon (size_chatText hsize)

/-- `bob` and `ann` are in a session, and `bob` speaks to it. -/
theorem sender_bound_bob : ∃ s peers, Reachable peopled (s, peers) ∧ afterEvents bobAndAnn = some s ∧
    (recipients s.world.mem.users (ascii "s")).map User.socketFd = [3, 4] ∧
    ∃ own ∈ s.world.mem.users, SpeaksAs s.world.mem.users peers ⟨ascii "bob", by decide, by decide⟩ own
      (serve 3 ⟨⟨ascii "bob", by decide, by decide⟩, .online⟩ (ascii "10:3:bob:hi") s.clear) := by
  let bob : CStr maxName := ⟨ascii "bob", by decide, by decide⟩
  obtain ⟨s, hs⟩ : ∃ s, afterEvents bobAndAnn = some s := Option.isSome_iff_exists.1 (by decide)
  obtain ⟨peers, hr⟩ := (reachable_afterEvents hs).recorded (fun _ => none) logPeers
  have hconn : s.conns 3 = .running ⟨bob, .online⟩ := of_afterEvents (f := fun s => s.conns 3) hs (by decide)
  have hsockets : (recipients s.world.mem.users (ascii "s")).map User.socketFd = [3, 4] :=
    of_afterEvents (f := fun s => (recipients s.world.mem.users (ascii "s")).map User.socketFd) hs (by decide)
  have hrunning : decide (∀ u ∈ recipients s.world.mem.users (ascii "s"),
      s.conns u.socketFd = .running ⟨u.username, .online⟩) = true :=
    of_afterEvents (f := fun s => decide (∀ u ∈ recipients s.world.mem.users (ascii "s"),
      s.conns u.socketFd = .running ⟨u.username, .online⟩)) hs (by decide)
  have hown : (s.world.mem.users.map fun u => (u.inSession, u.sessionId.bytes)) =
      [(.online, ascii "s"), (.online, ascii "s")] :=
    of_afterEvents (f := fun s => s.world.mem.users.map fun u => (u.inSession, u.sessionId.bytes)) hs (by decide)
  have hall : ∀ u ∈ s.world.mem.users, u.inSession = .online ∧ u.sessionId.bytes = ascii "s" := by
    intro u hu
    have hmem := List.mem_map_of_mem (f := fun u => (u.inSession, u.sessionId.bytes)) hu
    rw [hown] at hmem
    simpa using hmem
  have hmessage : (decode (recvBuffer (ascii "10:3:bob:hi"))).map (fun p => (p.1.type, p.2)) =
      some (MsgType.message, bob) := by decide
  obtain ⟨⟨received, claimed⟩, hdec, hpair⟩ := Option.map_eq_some_iff.1 hmessage
  obtain ⟨htype, rfl⟩ := Prod.mk.inj hpair
  obtain ⟨i, own, hrec, hbound⟩ := sender_bound hr hconn rfl
  obtain ⟨hin, hid⟩ := hall own hrec.mem
  refine ⟨s, peers, hr, hs, hsockets, own, hrec.mem, (hbound _ received _ hdec htype).2 ⟨i, own, hrec, Or.inr (Or.inr
    ⟨rfl, fun u hu conn hpeer => ⟨hin, ?_⟩⟩)⟩⟩
  rw [hid] at hu
  -- the connection on the socket of a member is the member's own
  have hmember := (peered_of_reachable hr).running _ _ (of_decide_eq_true hrunning u hu)
  obtain rfl := Option.some.inj (hmember.symm.trans hpeer)
  obtain ⟨j, hu'⟩ := record_of_mem (names_of_reachable hr.of_recording) (mem_of_mem_recipients hu)
  obtain ⟨hin', hid'⟩ := hall u hu'.mem
  exact ⟨rfl, j, u, hu', hin', CStr.ext (hid'.trans hid.symm)⟩

/-- `eve`, who is in no session, speaks as `ann` in the session of `ann`. -/
theorem sender_bound_fails : ¬ ∀ s peers, Reachable peopled (s, peers) → ∀ socketFd conn,
    s.conns socketFd = .running conn → conn.serverConnectionStatus = .online →
    ∀ i own, Record s.world.mem.users conn.source.bytes i own →
    ∀ chunk received claimed, decode (recvBuffer chunk) = some (received, claimed) →
      received.type = MsgType.message →
      SpeaksAs s.world.mem.users peers conn.source own (serve socketFd conn chunk s.clear) := by
  intro h
  let ann : CStr maxName := ⟨ascii "ann", by decide, by decide⟩
  let eve : CStr maxName := ⟨ascii "eve", by decide, by decide⟩
  obtain ⟨s, hs⟩ : ∃ s, afterEvents [.accept 3 ann, .accept 4 ann, .recv 3 (ascii "13:1:ann:x"),
    .recv 3 (ascii "8:1:ann:s"), .recv 4 (ascii "13:1:eve:x")] = some s := Option.isSome_iff_exists.1 (by decide)
  obtain ⟨peers, hr⟩ := (reachable_afterEvents hs).recorded (fun _ => none) logPeers
  have hconn : s.conns 4 = .running ⟨eve, .online⟩ := of_afterEvents (f := fun s => s.conns 4) hs (by decide)
  have hann : databaseSearchUser s.world.mem.users ann.bytes = some 0 :=
    of_afterEvents (f := fun s => databaseSearchUser s.world.mem.users ann.bytes) hs (by decide)
  have heve : databaseSearchUser s.world.mem.users eve.bytes = some 1 :=
    of_afterEvents (f := fun s => databaseSearchUser s.world.mem.users eve.bytes) hs (by decide)
  have hfree : s.world.held .userList = false := of_afterEvents (f := fun s => s.world.held .userList) hs (by decide)
  have hsockets : (s.world.mem.users[0]?).map (fun u =>
      (recipients s.world.mem.users u.sessionId.bytes).map User.socketFd) = some [3] :=
    of_afterEvents (f := fun s => (s.world.mem.users[0]?).map fun u =>
      (recipients s.world.mem.users u.sessionId.bytes).map User.socketFd) hs (by decide)
  obtain ⟨v, hv⟩ := Table.exists_at hann
  obtain ⟨own, hown⟩ := Table.exists_at heve
  rw [hv.get, Option.map_some, Option.some.injEq] at hsockets
  have hmessage : (decode (recvBuffer (ascii "10:3:ann:hi"))).map (fun p => (p.1.type, p.2)) =
      some (MsgType.message, ann) := by decide
  obtain ⟨⟨received, claimed⟩, hdec, hpair⟩ := Option.map_eq_some_iff.1 hmessage
  obtain ⟨htype, rfl⟩ := Prod.mk.inj hpair
  obtain ⟨-, hcolon, hsize⟩ := decode_eq_some hdec
  have hspeaks := h s peers hr 4 ⟨eve, .online⟩ hconn rfl 1 own hown _ received _ hdec htype
  rw [serve_message (w := s.clear) hdec htype hsize hv,
    if_neg (show ¬ s.clear.held .userList = true from fun h => by cases hfree.symm.trans h)] at hspeaks
  rcases (bound_relayed (m := s.clear.mem) rfl hown hv hcolon (size_chatText hsize)).1 hspeaks with hnil | ⟨hname, -⟩
  · rw [hnil] at hsockets
    cases hsockets
  · exact absurd hname (by decide)

end Conferencing
