import NetLabs.Conferencing.ActiveList
import NetLabs.Conferencing.Membership
import NetLabs.Lib.Columns

/-!
# Reading the lists

The replies to `QUERY` and `SESS_QUERY` are texts that the client prints: two lines at the top, then a line for every user,
in columns that are padded with blanks.  Nothing escapes a newline, but as long as no name holds one, the columns of the
text that arrives are the users listed, with their sessions and their roles (`lists_tell`).
-/

namespace Conferencing

open CText LockProg Transition Columns

abbrev newline : Byte := 10
abbrev blank : Byte := 32

/-- The width of the column of the roles. -/
abbrev roleWidth : Nat := 6

/-! ### The lines of the two texts -/

/-- A line of the list of online users, up to its newline. -/
def activeRow (username sessionId : Bytes) : Bytes := padRight maxName username ++ blank :: padRight maxSessionCount sessionId

/-- A line of the list of the users in a session. -/
def sessionRow (username sessionId role : Bytes) : Bytes :=
  padRight maxName username ++ blank :: (padRight maxSessionCount sessionId ++ blank :: padRight roleWidth role)

/-- What the columns of the list of online users say. -/
def readActiveRow (row : Bytes) : Bytes × Bytes :=
  (unpad blank (row.take maxName), unpad blank (row.drop (maxName + 1)))

/-- What the columns of the list of the users in a session say; the column of the sessions is as wide as they need. -/
def readSessionRow (row : Bytes) : Bytes × Bytes × Bytes :=
  let fields := row.drop (maxName + 1)
  (unpad blank (row.take maxName), unpad blank (fields.take (fields.length - (roleWidth + 1))),
    unpad blank (fields.drop (fields.length - roleWidth)))

/-- The list of online users, below its two lines at the top. -/
def readActiveList (text : Bytes) : List (Bytes × Bytes) := ((linesOf newline text).drop 2).map readActiveRow

def readSessionList (text : Bytes) : List (Bytes × Bytes × Bytes) := ((linesOf newline text).drop 2).map readSessionRow

section Rows

variable {username sessionId role : Bytes} {users : List User}

private theorem length_nameColumn (h : username.length < maxName) : (padRight maxName username).length = maxName := by
  rw [length_padRight]
  omega

private theorem unpad_padRight (width : Nat) (s : Bytes) : unpad blank (padRight width s) = unpad blank s :=
  unpad_append_replicate s _

private theorem readActiveRow_eq (h : username.length < maxName) :
    readActiveRow (activeRow username sessionId) = (unpad blank username, unpad blank sessionId) := by
  have hname := length_nameColumn h
  rw [readActiveRow, activeRow, List.take_left' hname, drop_column hname, unpad_padRight, unpad_padRight]

private theorem readSessionRow_eq (h : username.length < maxName) (hrole : role.length ≤ roleWidth) :
    readSessionRow (sessionRow username sessionId role) = (unpad blank username, unpad blank sessionId, unpad blank role) := by
  have hname := length_nameColumn h
  have hlen : (padRight roleWidth role).length = roleWidth := by rw [length_padRight]; omega
  -- the last column has a fixed width
  have hfields : (padRight maxSessionCount sessionId ++ blank :: padRight roleWidth role).length =
      (padRight maxSessionCount sessionId).length + (roleWidth + 1) := by
    rw [List.length_append, List.length_cons, hlen]
  have hsession : (padRight maxSessionCount sessionId).length + (roleWidth + 1) - (roleWidth + 1) =
      (padRight maxSessionCount sessionId).length := by omega
  have hlast : (padRight maxSessionCount sessionId).length + (roleWidth + 1) - roleWidth =
      (padRight maxSessionCount sessionId).length + 1 := by omega
  simp only [readSessionRow, sessionRow, List.take_left' hname, drop_column hname, hfields, hsession, hlast,
    List.take_left, drop_column rfl, unpad_padRight]

private theorem newline_not_mem_padRight {width : Nat} {s : Bytes} (h : newline ∉ s) : newline ∉ padRight width s := by
  rw [padRight, List.mem_append, not_or]
  exact ⟨h, fun hmem => absurd (List.eq_of_mem_replicate hmem) (by decide)⟩

private theorem newline_not_mem_row {rest : Bytes} (hname : newline ∉ username) (hrest : newline ∉ rest) :
    newline ∉ padRight maxName username ++ blank :: rest := by
  rw [List.mem_append, List.mem_cons, not_or, not_or]
  exact ⟨newline_not_mem_padRight hname, by decide, hrest⟩

private theorem newline_not_mem_activeRow (hname : newline ∉ username) (hid : newline ∉ sessionId) :
    newline ∉ activeRow username sessionId := newline_not_mem_row hname (newline_not_mem_padRight hid)

private theorem newline_not_mem_sessionRow (hname : newline ∉ username) (hid : newline ∉ sessionId)
    (hrole : newline ∉ role) :
    newline ∉ sessionRow username sessionId role := by
  refine newline_not_mem_row hname ?_
  rw [List.mem_append, List.mem_cons, not_or, not_or]
  exact ⟨newline_not_mem_padRight hid, by decide, newline_not_mem_padRight hrole⟩

end Rows

/-! ### The two texts -/

/-- A user whose line is one line. -/
structure User.OneLine (u : User) : Prop where
  username : newline ∉ u.username.bytes
  sessionId : newline ∉ u.sessionId.bytes

/-- The name and the session of a user, as a column shows them. -/
def User.shown (u : User) : Bytes × Bytes := (unpad blank u.username.bytes, unpad blank u.sessionId.bytes)

/-- With the role. -/
def User.shownWithRole (u : User) : Bytes × Bytes × Bytes :=
  (unpad blank u.username.bytes, unpad blank u.sessionId.bytes, u.role.name)

section Texts

variable {users : List User} {id : Bytes}

/-- Below the two lines at the top the rows are read one by one. -/
private theorem drop_linesOf {top row : Bytes} {rows : List Bytes} (htop : newline ∉ top) (hrow : newline ∉ row)
    (h : ∀ row ∈ rows, newline ∉ row) :
    (linesOf newline (top ++ [newline] ++ (row ++ [newline]) ++ rows.flatMap fun row => row ++ [newline])).drop 2 = rows := by
  have hall : ∀ line ∈ top :: row :: rows, newline ∉ line := List.forall_mem_cons.2 ⟨htop, List.forall_mem_cons.2 ⟨hrow, h⟩⟩
  have hlines := linesOf_flatMap hall
  rw [List.flatMap_cons, List.flatMap_cons, ← List.append_assoc] at hlines
  rw [hlines]
  rfl

private theorem readActiveList_eq (h : ∀ u ∈ onlineUsers users, u.OneLine) :
    readActiveList (activeUserText users) = (onlineUsers users).map User.shown := by
  have hrows : ∀ row ∈ (onlineUsers users).map fun u => activeRow u.username.bytes u.sessionId.bytes, newline ∉ row := by
    intro row hrow
    obtain ⟨u, hu, rfl⟩ := List.mem_map.1 hrow
    exact newline_not_mem_activeRow (h u hu).username (h u hu).sessionId
  have htext : activeUserText users = ascii "Active User List:" ++ [newline] ++
      (activeRow (ascii "Username") (ascii "Session ID") ++ [newline]) ++
      ((onlineUsers users).map fun u => activeRow u.username.bytes u.sessionId.bytes).flatMap fun row => row ++ [newline] := by
    rw [List.flatMap_map]
    simp only [activeUserText, activeUserLine, activeRow, onlineUsers, List.append_assoc, List.cons_append]
    rfl
  rw [readActiveList, htext, drop_linesOf (by decide) (by decide) hrows, List.map_map]
  exact List.map_congr_left fun u _ => readActiveRow_eq u.username.fits

private theorem readSessionList_eq (h : ∀ u ∈ users, u.sessionId.bytes = id → u.OneLine) :
    readSessionList (sessionUserText users id) = (users.filter fun u => u.sessionId.bytes = id).map User.shownWithRole := by
  have hrole : ∀ role : Role, newline ∉ role.name ∧ role.name.length ≤ roleWidth ∧ unpad blank role.name = role.name := by
    intro role
    cases role <;> decide
  have hrows : ∀ row ∈ (users.filter fun u => u.sessionId.bytes = id).map fun u =>
      sessionRow u.username.bytes u.sessionId.bytes u.role.name, newline ∉ row := by
    intro row hrow
    obtain ⟨u, hu, rfl⟩ := List.mem_map.1 hrow
    obtain ⟨hmem, hid⟩ := List.mem_filter.1 hu
    have hline := h u hmem (by simpa using hid)
    exact newline_not_mem_sessionRow hline.username hline.sessionId (hrole u.role).1
  have htext : sessionUserText users id = ascii "Active User List:" ++ [newline] ++
      (sessionRow (ascii "Username") (ascii "Session ID") (ascii "Role") ++ [newline]) ++
      ((users.filter fun u => u.sessionId.bytes = id).map fun u =>
        sessionRow u.username.bytes u.sessionId.bytes u.role.name).flatMap fun row => row ++ [newline] := by
    rw [List.flatMap_map]
    simp only [sessionUserText, sessionUserLine, sessionRow, List.append_assoc, List.cons_append]
    rfl
  rw [readSessionList, htext, drop_linesOf (by decide) (by decide) hrows, List.map_map]
  refine List.map_congr_left fun u _ => ?_
  obtain ⟨-, hwidth, hname⟩ := hrole u.role
  exact (readSessionRow_eq u.username.fits hwidth).trans (by rw [hname]; rfl)

end Texts

/-! ### Runs -/

/-- No account is registered, and no session is created, with a newline in its name. -/
def OneLineNames : Event → Prop
  | .recv _ chunk => ∀ p ∈ decode (recvBuffer chunk), (p.1.type = MsgType.create → newline ∉ p.2.bytes) ∧
      (p.1.type = MsgType.newSess → newline ∉ cstr p.1.data.bytes)
  | _ => True

instance : DecidablePred OneLineNames
  | .accept _ _ => inferInstanceAs (Decidable True)
  | .recv _ chunk => inferInstanceAs (Decidable (∀ p ∈ decode (recvBuffer chunk),
      (p.1.type = MsgType.create → newline ∉ p.2.bytes) ∧ (p.1.type = MsgType.newSess → newline ∉ cstr p.1.data.bytes)))
  | .disconnect _ => inferInstanceAs (Decidable True)

section OneLine

variable {users : List User} {name : Bytes} {k : Nat} {u u' : User}

private theorem newline_not_mem_notInSession : newline ∉ notInSession.bytes := by decide

/-- Who keeps the name, and keeps the session or leaves it. -/
private theorem User.OneLine.of_session (h : u.OneLine) (hname : u'.username = u.username)
    (hid : u'.sessionId = u.sessionId ∨ u'.sessionId = notInSession) : u'.OneLine := by
  refine ⟨hname ▸ h.username, ?_⟩
  rcases hid with hid | hid
  · exact hid ▸ h.sessionId
  · exact hid ▸ newline_not_mem_notInSession

private theorem Leaves.oneLine (h : Leaves users name k u u') (hu : u.OneLine) : u'.OneLine := by
  refine hu.of_session ?_ h.session
  cases h <;> rfl

private theorem Quits.oneLine (h : Quits users name k u u') (hu : u.OneLine) : u'.OneLine := by
  refine hu.of_session ?_ h.session
  cases h <;> rfl

/-- A session that is joined is that of a user. -/
private theorem Touched.oneLine {socketFd : Nat} {conn : Conn} {received : Message} {claimed : CStr maxName}
    (h : Touched users socketFd conn received claimed k u u') (hall : ∀ u ∈ users, u.OneLine) (hu : u.OneLine)
    (hnew : received.type = MsgType.newSess → newline ∉ cstr received.data.bytes) : u'.OneLine := by
  cases h with
  | exit _ h => exact h.oneLine hu
  | create htype _ hid _ => exact ⟨hu.username, hid ▸ hnew htype⟩
  | @join id _ _ _ href =>
    obtain ⟨v, hv, hsame⟩ := List.countP_pos_iff.1 (Nat.pos_of_ne_zero (joinRefusal_eq_none href).2)
    have hid : v.sessionId.bytes = id.bytes := by simpa using hsame
    exact ⟨hu.username, hid ▸ (hall v hv).sessionId⟩
  | leave _ h => exact h.oneLine hu
  | kick _ _ _ _ => exact hu.of_session rfl (Or.inr rfl)
  | _ => exact hu.of_session rfl (Or.inl rfl)

private theorem oneLine_turn {s t : ServerState} {e : Event} (hturn : Turn s e t) (hnames : OneLineNames e)
    (h : ∀ u ∈ s.world.mem.users, u.OneLine) : ∀ u ∈ t.world.mem.users, u.OneLine := by
  refine hturn.forall_users h ?_ ?_ fun _ _ _ _ _ hquit hu => hquit.oneLine hu
  · rintro socketFd chunk received claimed password rfl hdec htype
    exact ⟨(hnames _ hdec).1 htype, newline_not_mem_notInSession⟩
  · rintro socketFd chunk conn received claimed r w k u u' rfl - hdec - - htouch hu
    exact htouch.oneLine h hu (hnames _ hdec).2

/-- The names that are loaded may hold anything but the two characters that delimit them. -/
def LoadsOneLine (file : Bytes) : Prop := ∀ users, SetUpDatabase file users → ∀ u ∈ users, newline ∉ u.username.bytes

theorem oneLine_of_reachable {file : Bytes} {s : ServerState} (hfile : LoadsOneLine file)
    (hr : Reachable ((serverOn file).when fun _ => OneLineNames) s) : ∀ u ∈ s.world.mem.users, u.OneLine := by
  induction hr with
  | init h =>
    obtain ⟨users, hload, rfl⟩ := h
    have hid : ∀ u ∈ users, u.sessionId = notInSession := hload.forall_users fun _ _ => rfl
    exact fun u hu => ⟨hfile users hload u hu, hid u hu ▸ newline_not_mem_notInSession⟩
  | step _ hst ih => exact oneLine_turn (ServerState.turn hst.2) hst.1 ih

end OneLine

/-! ### The replies -/

section Tell

variable {s t : ServerState} {socketFd : Nat} {conn : Conn} {chunk : Bytes} {received : Message} {claimed : CStr maxName}
  {w : World Mutex Memory}

private theorem serve_sessQuery (socketFd : Nat) (conn : Conn)
    (hdec : decode (recvBuffer chunk) = some (received, claimed))
    (htype : received.type = MsgType.sessQuery) (hrw : w.held .rw = false) :
    (countInSession w.mem.users (cstr received.data.bytes) = 0 ∧ serve socketFd conn chunk w =
      .ret (some conn) (w.setMem (w.mem.sent socketFd
        (wireOf MsgType.sqNak claimed (some (sessionResponseMessage .sessionNameInvalid)))))) ∨
    (countInSession w.mem.users (cstr received.data.bytes) ≠ 0 ∧ ∃ data : CStr maxData,
      data.bytes = sessionUserText w.mem.users (cstr received.data.bytes) ∧ serve socketFd conn chunk w =
      .ret (some conn) (w.setMem (w.mem.sent socketFd (wireOf MsgType.sqAck claimed (some data))))) ∨
    serve socketFd conn chunk w = .fault := by
  have hack := run_fillAndSend (show MsgType.sqAck ≠ MsgType.message by decide)
  have hnak := run_fillAndSend (show MsgType.sqNak ≠ MsgType.message by decide)
  rw [serve_eq hdec, dispatch_sessQuery htype]
  cases hdata : received.data.text? with
  | none => exact Or.inr (Or.inr rfl)
  | some id =>
    rw [CArray.cstr_of_text? hdata]
    simp only [run_bind, run_checked_some, bind_ret, run_getActiveUserListInASession, hrw, Bool.false_eq_true, ↓reduceIte]
    by_cases h0 : countInSession w.mem.users id.bytes = 0
    · exact Or.inl ⟨h0, by simp only [h0, ↓reduceIte, bind_ret, run_bind, hnak, run_pure]⟩
    · simp only [h0, ↓reduceIte]
      rcases listText_cases (nul_not_mem_sessionUserText w.mem.users id.bytes) with
        ⟨-, list, hlist, data, hdata⟩ | ⟨-, hnone⟩
      · have hbytes : data.bytes = sessionUserText w.mem.users id.bytes :=
          (CStr.ofBytes?_eq_some.1 hdata).trans (CStr.ofBytes?_eq_some.1 hlist)
        exact Or.inr (Or.inl ⟨h0, data, hbytes,
          by simp only [hlist, hdata, bind_ret, run_bind, run_checked_some, hack, run_pure]⟩)
      · right
        right
        cases hlist : CStr.ofBytes? maximumBufferSize (sessionUserText w.mem.users id.bytes) with
        | none => rfl
        | some list => simp [hnone list hlist]

/-- The only message sent is this one, to the client that asked. -/
def Tells (t : ServerState) (socketFd : Nat) (claimed : CStr maxName) (answer : Message) : Prop :=
  ∃ bytes, t.world.mem.outbox = [(socketFd, bytes)] ∧ decode (recvBuffer bytes) = some (answer, claimed)

private theorem tells_of_serve {type : UInt32} {data : CStr maxData} (hconn : s.conns socketFd = .running conn)
    (hdec : decode (recvBuffer chunk) = some (received, claimed)) (hnext : s.next (.recv socketFd chunk) = some t)
    (hserve : serve socketFd conn chunk s.clear =
      .ret (some conn) (s.clear.setMem (s.clear.mem.sent socketFd (wireOf type claimed (some data))))) :
    ∃ answer, Tells t socketFd claimed answer ∧ answer.type = type ∧ cstr answer.data.bytes = data.bytes := by
  simp only [ServerState.next, hconn, hserve, Option.ite_none_right_eq_some] at hnext
  cases hnext.2
  refine ⟨_, ⟨_, rfl, decode_wireOf type (some data) (decode_eq_some hdec).2.1⟩, rfl, ?_⟩
  exact CArray.cstr_of_text? (text_reply_data _ _ _)

private theorem not_faults (hconn : s.conns socketFd = .running conn) (hnext : s.next (.recv socketFd chunk) = some t) :
    serve socketFd conn chunk s.clear ≠ .fault := by
  intro hserve
  simp only [ServerState.next, hconn, hserve, Option.ite_none_right_eq_some] at hnext
  cases hnext.2

/-- The lists are read.  In every run in which no account is registered, and no session is created, with a newline in its
name, what the client that asked can read in the columns of the reply is who is online, or who is in the session. -/
theorem lists_tell {file : Bytes} (hfile : LoadsOneLine file)
    (hr : Reachable ((serverOn file).when fun _ => OneLineNames) s) (hfree : s.world.held .rw = false)
    (hconn : s.conns socketFd = .running conn) (hdec : decode (recvBuffer chunk) = some (received, claimed))
    (hnext : s.next (.recv socketFd chunk) = some t) :
    (received.type = MsgType.query → ∃ answer, Tells t socketFd claimed answer ∧ answer.type = MsgType.quAck ∧
      readActiveList (cstr answer.data.bytes) = (onlineUsers s.world.mem.users).map User.shown) ∧
    (received.type = MsgType.sessQuery → ∃ answer, Tells t socketFd claimed answer ∧
      ((∀ u ∈ s.world.mem.users, u.sessionId.bytes ≠ cstr received.data.bytes) ∧ answer.type = MsgType.sqNak ∧
          cstr answer.data.bytes = ascii "Session name is not found!." ∨
        (∃ u ∈ s.world.mem.users, u.sessionId.bytes = cstr received.data.bytes) ∧ answer.type = MsgType.sqAck ∧
        readSessionList (cstr answer.data.bytes) = (s.world.mem.users.filter fun u =>
          u.sessionId.bytes = cstr received.data.bytes).map User.shownWithRole)) := by
  have hlines := oneLine_of_reachable hfile hr
  have hnofault := not_faults hconn hnext
  constructor
  · intro htype
    rcases serve_query (w := s.clear) socketFd conn hdec htype hfree with ⟨-, data, hdata, hserve⟩ | ⟨-, hserve⟩
    · obtain ⟨answer, htells, hanswer, htext⟩ := tells_of_serve hconn hdec hnext hserve
      refine ⟨answer, htells, hanswer, ?_⟩
      rw [htext, hdata]
      exact readActiveList_eq fun u hu => hlines u (List.mem_filter.1 hu).1
    · exact absurd hserve hnofault
  · intro htype
    rcases serve_sessQuery (w := s.clear) socketFd conn hdec htype hfree with
      ⟨h0, hserve⟩ | ⟨h0, data, hdata, hserve⟩ | hserve
    · obtain ⟨answer, htells, hanswer, htext⟩ := tells_of_serve hconn hdec hnext hserve
      refine ⟨answer, htells, Or.inl ⟨fun u hu => ?_, hanswer, htext⟩⟩
      simpa using List.countP_eq_zero.1 h0 u hu
    · obtain ⟨answer, htells, hanswer, htext⟩ := tells_of_serve hconn hdec hnext hserve
      obtain ⟨u, hu, hid⟩ := List.countP_pos_iff.1 (Nat.pos_of_ne_zero h0)
      refine ⟨answer, htells, Or.inr ⟨⟨u, hu, by simpa using hid⟩, hanswer, ?_⟩⟩
      rw [htext, hdata]
      exact readSessionList_eq fun u hu _ => hlines u hu
    · exact absurd hserve hnofault

/-- `bob` asks who is online, and who is in the session of `ann` and him. -/
theorem lists_tell_bob : ∃ s, afterEventsWhen (fun _ => OneLineNames) bobAndAnn = some s ∧
    (∃ t answer, s.next (.recv 3 (ascii "11:0:bob:")) = some t ∧ Tells t 3 ⟨ascii "bob", by decide, by decide⟩ answer ∧
      answer.type = MsgType.quAck ∧
      readActiveList (cstr answer.data.bytes) = [(ascii "bob", ascii "s"), (ascii "ann", ascii "s")]) ∧
    ∃ t answer, s.next (.recv 3 (ascii "24:1:bob:s")) = some t ∧ Tells t 3 ⟨ascii "bob", by decide, by decide⟩ answer ∧
      answer.type = MsgType.sqAck ∧ readSessionList (cstr answer.data.bytes) =
        [(ascii "bob", ascii "s", ascii "ADMIN"), (ascii "ann", ascii "s", ascii "USER")] := by
  obtain ⟨s, hs⟩ : ∃ s, afterEventsWhen (fun _ => OneLineNames) bobAndAnn = some s :=
    Option.isSome_iff_exists.1 (by decide)
  have hfile : LoadsOneLine [] := by
    rintro users ⟨fuel, hload⟩
    cases fuel with
    | zero => cases hload
    | succ fuel =>
      cases hload
      simp
  have hr : Reachable ((serverOn []).when fun _ => OneLineNames) s :=
    reachable_guarded (fun _ _ _ h => h) ⟨[], ⟨1, rfl⟩, rfl⟩ hs
  have hstate : (afterEventsWhen (fun _ => OneLineNames) bobAndAnn).map (fun s => (s.conns 3, s.world.held .rw)) =
      some (.running ⟨⟨ascii "bob", by decide, by decide⟩, .online⟩, false) := by decide
  have hnexts : (afterEventsWhen (fun _ => OneLineNames) bobAndAnn).map (fun s =>
      ((s.next (.recv 3 (ascii "11:0:bob:"))).isSome, (s.next (.recv 3 (ascii "24:1:bob:s"))).isSome)) =
      some (true, true) := by decide +kernel
  have hlists : (afterEventsWhen (fun _ => OneLineNames) bobAndAnn).map (fun s =>
      ((onlineUsers s.world.mem.users).map User.shown,
        (s.world.mem.users.filter fun u => u.sessionId.bytes = ascii "s").map User.shownWithRole)) =
      some ([(ascii "bob", ascii "s"), (ascii "ann", ascii "s")],
        [(ascii "bob", ascii "s", ascii "ADMIN"), (ascii "ann", ascii "s", ascii "USER")]) := by decide
  rw [hs, Option.map_some, Option.some.injEq] at hstate hnexts hlists
  obtain ⟨hconn, hfree⟩ := Prod.mk.inj hstate
  obtain ⟨hasked, hasked'⟩ := Prod.mk.inj hnexts
  obtain ⟨honline, hmembers⟩ := Prod.mk.inj hlists
  refine ⟨s, hs, ?_, ?_⟩
  · obtain ⟨t, ht⟩ := Option.isSome_iff_exists.1 hasked
    have hquery : (decode (recvBuffer (ascii "11:0:bob:"))).map (fun p => (p.1.type, p.2)) =
        some (MsgType.query, ⟨ascii "bob", by decide, by decide⟩) := by decide
    obtain ⟨p, hdec, hp⟩ := Option.map_eq_some_iff.1 hquery
    obtain ⟨htype, hclaimed⟩ := Prod.mk.inj hp
    obtain ⟨answer, htells, hack, hread⟩ := (lists_tell hfile hr hfree hconn hdec ht).1 htype
    exact ⟨t, answer, ht, hclaimed ▸ htells, hack, hread.trans honline⟩
  · obtain ⟨t, ht⟩ := Option.isSome_iff_exists.1 hasked'
    have hquery : (decode (recvBuffer (ascii "24:1:bob:s"))).map (fun p => (p.1.type, cstr p.1.data.bytes, p.2)) =
        some (MsgType.sessQuery, ascii "s", ⟨ascii "bob", by decide, by decide⟩) := by decide
    obtain ⟨p, hdec, hp⟩ := Option.map_eq_some_iff.1 hquery
    simp only [Prod.mk.injEq] at hp
    obtain ⟨htype, htext, hclaimed⟩ := hp
    obtain ⟨answer, htells, htold⟩ := (lists_tell hfile hr hfree hconn hdec ht).2 htype
    rw [htext, hmembers] at htold
    rcases htold with ⟨hnone, -⟩ | ⟨-, hack, hread⟩
    · have hempty : s.world.mem.users.filter (fun u => u.sessionId.bytes = ascii "s") = [] :=
        List.filter_eq_nil_iff.2 fun u hu => by simpa using hnone u hu
      rw [hempty] at hmembers
      cases hmembers
    · exact ⟨t, answer, ht, hclaimed ▸ htells, hack, hread⟩

end Tell

end Conferencing
