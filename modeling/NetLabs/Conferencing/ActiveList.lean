import NetLabs.Conferencing.LockDiscipline

/-!
# The list of online users

The reply to a `QUERY` has a head of 47 bytes and a line for every online user: the username padded to 17 bytes, the
session padded to 10 (although it may have 19), and two separators.  The text is built in 1200 bytes and copied into the
1000 of a message without a check, so it arrives exactly when these lengths add up to less than 1000
(`active_list_iff`); the table has room for three times as many users.
-/

namespace Conferencing

open CText LockProg Transition

/-! ### The length of the text -/

/-- The users that are listed. -/
def onlineUsers (users : List User) : List User := users.filter fun u => u.status = .online

/-- The bytes of a user's line. -/
def lineLength (u : User) : Nat := 19 + max maxSessionCount u.sessionId.bytes.length

/-- The bytes of the whole list. -/
def listLength (users : List User) : Nat := 47 + ((onlineUsers users).map lineLength).sum

theorem length_padRight (width : Nat) (s : Bytes) : (padRight width s).length = max width s.length := by
  rw [padRight, List.length_append, List.length_replicate]
  omega

private theorem length_activeUserLine (u : User) :
    (activeUserLine u.username.bytes u.sessionId.bytes).length = lineLength u := by
  have hname : max maxName u.username.bytes.length = 17 := Nat.max_eq_left (Nat.le_of_lt u.username.fits)
  simp only [activeUserLine, List.length_append, List.length_cons, List.length_nil, length_padRight, hname, lineLength]
  omega

private theorem length_activeUserText (users : List User) : (activeUserText users).length = listLength users := by
  have hhead : (ascii "Active User List:\n" ++ activeUserLine (ascii "Username") (ascii "Session ID")).length = 47 := by
    decide
  rw [activeUserText, List.length_append, hhead, List.length_flatMap, listLength, onlineUsers]
  simp only [length_activeUserLine]

/-- A line has at least 29 bytes and at most 38. -/
private theorem lineLength_bounds (u : User) : 29 ≤ lineLength u ∧ lineLength u ≤ 38 := by
  have hfits : u.sessionId.bytes.length < 20 := u.sessionId.fits
  have hwidth : maxSessionCount = 10 := rfl
  unfold lineLength
  omega

private theorem listLength_bounds (users : List User) :
    47 + 29 * (onlineUsers users).length ≤ listLength users ∧ listLength users ≤ 47 + 38 * (onlineUsers users).length := by
  unfold listLength
  induction onlineUsers users with
  | nil => decide
  | cons u l ih =>
    obtain ⟨hlow, hhigh⟩ := lineLength_bounds u
    rw [List.map_cons, List.sum_cons, List.length_cons]
    omega

/-! ### The reply -/

section Reply

variable {s : ServerState} {socketFd : Nat} {conn : Conn} {chunk : Bytes} {received : Message} {claimed : CStr maxName}
  {w : World Mutex Memory}

theorem serve_query (socketFd : Nat) (conn : Conn) (hdec : decode (recvBuffer chunk) = some (received, claimed))
    (htype : received.type = MsgType.query) (hrw : w.held .rw = false) :
    (listLength w.mem.users < maxData ∧ ∃ data : CStr maxData, data.bytes = activeUserText w.mem.users ∧
      serve socketFd conn chunk w =
        .ret (some conn) (w.setMem (w.mem.sent socketFd (wireOf MsgType.quAck claimed (some data))))) ∨
    ¬ listLength w.mem.users < maxData ∧ serve socketFd conn chunk w = .fault := by
  have hack := run_fillAndSend (show MsgType.quAck ≠ MsgType.message by decide)
  rw [← length_activeUserText]
  simp only [serve_eq hdec, dispatch_query htype, run_bind, run_getActiveUserListInDatabase, hrw, Bool.false_eq_true,
    ↓reduceIte]
  rcases listText_cases (nul_not_mem_activeUserText w.mem.users) with ⟨hlt, list, hlist, data, hdata⟩ | ⟨hlt, hnone⟩
  · left
    have hbytes : data.bytes = activeUserText w.mem.users :=
      (CStr.ofBytes?_eq_some.1 hdata).trans (CStr.ofBytes?_eq_some.1 hlist)
    exact ⟨hlt, data, hbytes, by simp only [hlist, hdata, bind_ret, run_bind, run_checked_some, hack, run_pure]⟩
  · right
    refine ⟨hlt, ?_⟩
    cases hlist : CStr.ofBytes? maximumBufferSize (activeUserText w.mem.users) with
    | none => rfl
    | some list => simp [hnone list hlist]

/-- A `QUERY` arrives at a thread of the server, with `rw_mutex` free. -/
structure Queried (s : ServerState) (socketFd : Nat) (chunk : Bytes) (claimed : CStr maxName) : Prop where
  conn : ∃ conn, s.conns socketFd = .running conn
  length : 0 < chunk.length ∧ chunk.length ≤ maximumBufferSize
  query : ∃ received, decode (recvBuffer chunk) = some (received, claimed) ∧ received.type = MsgType.query
  free : s.world.held .rw = false

/-- The text fits the buffer in which it is built, and it is what the client that asked reads: the head, and a line for
every online user. -/
def ListArrives (s : ServerState) (socketFd : Nat) (chunk : Bytes) (claimed : CStr maxName) : Prop :=
  (activeUserText s.world.mem.users).length < maximumBufferSize ∧
    ∃ t bytes received, s.next (.recv socketFd chunk) = some t ∧ t.world.mem.outbox = [(socketFd, bytes)] ∧
      decode (recvBuffer bytes) = some (received, claimed) ∧ received.type = MsgType.quAck ∧
      cstr received.data.bytes = ascii "Active User List:\n" ++ activeUserLine (ascii "Username") (ascii "Session ID") ++
        (onlineUsers s.world.mem.users).flatMap fun u => activeUserLine u.username.bytes u.sessionId.bytes

/-- The list of online users arrives exactly when its lines, with the head, have less than 1000 bytes.  Twenty-five online
users always fit, thirty-three never. -/
theorem active_list_iff (h : Queried s socketFd chunk claimed) :
    (ListArrives s socketFd chunk claimed ↔ listLength s.world.mem.users < maxData) ∧
    ((onlineUsers s.world.mem.users).length ≤ 25 → listLength s.world.mem.users < maxData) ∧
    (33 ≤ (onlineUsers s.world.mem.users).length → ¬ listLength s.world.mem.users < maxData) := by
  obtain ⟨hlow, hhigh⟩ := listLength_bounds s.world.mem.users
  refine ⟨?_, fun hfew => show _ < 1000 by omega, fun hmany => show ¬ _ < 1000 by omega⟩
  obtain ⟨conn, hconn⟩ := h.conn
  obtain ⟨received, hdec, htype⟩ := h.query
  have hnext : s.next (.recv socketFd chunk) = s.after socketFd (serve socketFd conn chunk s.clear) := by
    simp only [ServerState.next, hconn, h.length, and_self, ↓reduceIte]
  have hfree : s.clear.held .rw = false := h.free
  rcases serve_query socketFd conn hdec htype hfree with ⟨hlt, data, hdata, hserve⟩ | ⟨hlt, hserve⟩
  · refine iff_of_true ⟨?_, ?_⟩ hlt
    · rw [length_activeUserText]
      exact Nat.lt_trans hlt (by decide)
    · refine ⟨_, _, _, by rw [hnext, hserve]; rfl, rfl, decode_wireOf MsgType.quAck (some data) (decode_eq_some hdec).2.1,
        rfl, ?_⟩
      rw [CArray.cstr_of_text? (text_reply_data _ _ _)]
      exact hdata
  · refine iff_of_false ?_ hlt
    rintro ⟨-, t, bytes, received', ht, -⟩
    rw [hnext, hserve] at ht
    cases ht

end Reply

/-- A state in which socket 3 has logged in, and then asks for the list. -/
private theorem queried_of_events {events : List Event} {s : ServerState} {name : CStr maxName} {chunk : Bytes}
    (hs : afterEvents events = some s) (hlength : 0 < chunk.length ∧ chunk.length ≤ maximumBufferSize)
    (hstate : (afterEvents events).map (fun s => (s.conns 3, s.world.held .rw)) = some (.running ⟨name, .online⟩, false))
    (hquery : (decode (recvBuffer chunk)).map (fun p => (p.1.type, p.2)) = some (MsgType.query, name)) :
    Queried s 3 chunk name := by
  obtain ⟨p, hdec, hp⟩ := Option.map_eq_some_iff.1 hquery
  obtain ⟨htype, rfl⟩ := Prod.mk.inj hp
  obtain ⟨hconn, hfree⟩ := Prod.mk.inj (of_afterEvents (f := fun s => (s.conns 3, s.world.held .rw)) hs hstate)
  exact ⟨⟨_, hconn⟩, hlength, ⟨p.1, hdec, htype⟩, hfree⟩

theorem active_list_iff_bob : ∃ s, afterEvents [.accept 3 ⟨[], by decide, by decide⟩, .recv 3 (ascii "13:1:bob:x")] = some s ∧
    ListArrives s 3 (ascii "11:0:bob:") ⟨ascii "bob", by decide, by decide⟩ := by
  let events : List Event := [.accept 3 ⟨[], by decide, by decide⟩, .recv 3 (ascii "13:1:bob:x")]
  obtain ⟨s, hs⟩ : ∃ s, afterEvents events = some s := Option.isSome_iff_exists.1 (by decide)
  have hqueried : Queried s 3 (ascii "11:0:bob:") ⟨ascii "bob", by decide, by decide⟩ :=
    queried_of_events hs (by decide) (by decide) (by decide)
  have hfew : (onlineUsers s.world.mem.users).length = 1 :=
    of_afterEvents (f := fun s => (onlineUsers s.world.mem.users).length) hs (by decide)
  obtain ⟨hiff, hfits, -⟩ := active_list_iff hqueried
  exact ⟨s, hs, hiff.2 (hfits (by omega))⟩

/-- Thirty-three registrations on one connection, after which all of their users are online. -/
def crowd : List Event := (List.range 33).map fun i => .recv 3 (ascii "13:1:" ++ UInt8.ofNat (65 + i) :: ascii ":x")

/-- The last of them asks for the list. -/
theorem active_list_fails : ¬ ∀ s, Reachable server s → ∀ socketFd chunk claimed, Queried s socketFd chunk claimed →
    ListArrives s socketFd chunk claimed := by
  intro h
  let events : List Event := .accept 3 ⟨[], by decide, by decide⟩ :: crowd
  obtain ⟨s, hs⟩ : ∃ s, afterEvents events = some s := Option.isSome_iff_exists.1 (by decide +kernel)
  have hqueried : Queried s 3 (ascii "11:0:a:") ⟨ascii "a", by decide, by decide⟩ :=
    queried_of_events hs (by decide) (by decide +kernel) (by decide)
  obtain ⟨-, t, _, _, hnext, -⟩ := h s (reachable_afterEvents hs) 3 _ _ hqueried
  have hnone : (s.next (.recv 3 (ascii "11:0:a:"))).isSome = false :=
    of_afterEvents (f := fun s => (s.next (.recv 3 (ascii "11:0:a:"))).isSome) hs (by decide +kernel)
  rw [hnext] at hnone
  cases hnone

end Conferencing
