import NetLabs.Conferencing.Client
import NetLabs.Conferencing.Runs

/-!
# What a client is told

The server changes the record of a user on behalf of others, and sends a notice to the user's socket.  For one user
(`Mine`), the messages that an event of another connection sends to the user's socket say what the event did to the
user's record (`Turn.noticed`), and so keep the flags that follow from all messages in step with it
(`Noticed.agrees`).
-/

namespace Conferencing

open CText LockProg Transition

/-! ### Messages and flags -/

/-- The type that the receiver of a message reads. -/
def typeOf (bytes : Bytes) : Option UInt32 := (decode (recvBuffer bytes)).map fun p => p.1.type

/-- What a message does to `session_status` and `role`. -/
def flagsAfter (type : UInt32) (f : Status × Role) : Status × Role :=
  if type = MsgType.jnAck then (.online, .user)
  else if type = MsgType.jnNak then (.offline, .user)
  else if type = MsgType.nsAck then (.online, .admin)
  else if type = MsgType.pmMessage then (f.1, .admin)
  else if type = MsgType.pmAck then (f.1, .user)
  else if type = MsgType.kiMessage then (.offline, f.2)
  else f

/-- `session_status` and `role` once some messages have been received. -/
def settle (f : Status × Role) (messages : List Bytes) : Status × Role :=
  messages.foldl (fun f bytes => ((typeOf bytes).map fun type => flagsAfter type f).getD f) f

/-- `session_status` and `role`. -/
def Client.flags (c : Client) : Status × Role := (c.sessionStatus, c.role)

private theorem Client.flags_afterMessage (c : Client) (type : UInt32) (source : CStr maxName) :
    (c.afterMessage type source).flags = flagsAfter type c.flags := by
  unfold Client.afterMessage flagsAfter
  by_cases hack : type = MsgType.loAck ∨ type = MsgType.rgAck
  · rw [if_pos hack]
    rcases hack with rfl | rfl <;> rfl
  · rw [if_neg hack]
    by_cases hnak : type = MsgType.loNak ∨ type = MsgType.rgNak
    · rw [if_pos hnak]
      rcases hnak with rfl | rfl <;> rfl
    · rw [if_neg hnak]
      split_ifs <;> rfl

/-- Receiving a message does to the flags what its type says. -/
theorem Client.flags_receive {c c' : Client} {chunk : Bytes} {goesOn : Bool} (h : c.receive chunk = some (c', goesOn)) :
    c'.flags = settle c.flags [chunk] := by
  obtain ⟨⟨message, source⟩, hdec, hhandle⟩ := Option.bind_eq_some_iff.1 h
  have htype : typeOf chunk = some message.type := by simp only [typeOf, hdec, Option.map_some]
  simp only [settle, List.foldl_cons, List.foldl_nil, htype, Option.map_some, Option.getD_some]
  dsimp only [Client.handle] at hhandle
  split at hhandle
  · rename_i hmessage
    rw [hmessage]
    split at hhandle
    · cases hhandle
      rfl
    · obtain ⟨_, -, hhandle⟩ := Option.map_eq_some_iff.1 hhandle
      cases hhandle
      rfl
  · split at hhandle
    · cases hhandle
    · cases hhandle
      exact c.flags_afterMessage message.type source

theorem settle_append (f : Status × Role) (l l' : List Bytes) : settle f (l ++ l') = settle (settle f l) l' :=
  List.foldl_append

theorem settle_singleton {f : Status × Role} {bytes : Bytes} {type : UInt32} (h : typeOf bytes = some type) :
    settle f [bytes] = flagsAfter type f := by
  simp only [settle, List.foldl_cons, List.foldl_nil, h, Option.map_some, Option.getD_some]

theorem typeOf_wireOf (type : UInt32) {source : CStr maxName} (data : Option (CStr maxData))
    (hcolon : colon ∉ source.bytes) : typeOf (wireOf type source data) = some type := by
  simp only [typeOf, decode_wireOf type data hcolon, Option.map_some]
  rfl

theorem typeOf_chatWire {n : UInt32} {source : CStr maxName} {text : CStr maxData} (hcolon : colon ∉ source.bytes)
    (hsize : n.toNat = text.bytes.length + 1 ∨ n = 0 ∧ text.bytes = []) :
    typeOf (chatWire n source text) = some MsgType.message := by
  obtain ⟨message, hread, hchat⟩ := stringToMessage_chatWire (CArray.zero 12) hcolon hsize
  simp only [typeOf, decode, hread, hchat.source_text, Option.bind_eq_bind, Option.bind_some, pure, Option.map_some,
    hchat.type_eq]

/-! ### What arrives at one socket -/

/-- The messages that an event sent to a socket. -/
def Memory.inbox (m : Memory) (fd : Nat) : List Bytes := (m.outbox.filter fun p => p.1 = fd).map Prod.snd

section Inbox

variable (m : Memory) (fd : Nat)

@[simp] theorem Memory.inbox_setUsers (users : List User) : (m.setUsers users).inbox fd = m.inbox fd := rfl
@[simp] theorem Memory.inbox_appended (text : Bytes) : (m.appended text).inbox fd = m.inbox fd := rfl

theorem Memory.inbox_sent (bytes : Bytes) : (m.sent fd bytes).inbox fd = m.inbox fd ++ [bytes] := by
  simp [Memory.inbox]

theorem Memory.inbox_sent_ne {fd' : Nat} (h : fd' ≠ fd) (bytes : Bytes) : (m.sent fd' bytes).inbox fd = m.inbox fd := by
  simp [Memory.inbox, h]

end Inbox

/-- The record `u` of the user `name`, at `i`, is the only one that points to the socket `fd`. -/
structure Mine (users : List User) (name : CStr maxName) (fd i : Nat) (u : User) : Prop where
  record : Record users name.bytes i u
  socket : u.socketFd = fd
  status : u.status = .online
  session : u.inSession = .online → u.sessionId ≠ notInSession
  only : ∀ j v, users[j]? = some v → v.socketFd = fd → j = i

section Mine

variable {users : List User} {name : CStr maxName} {fd i j : Nat} {u v : User} {f : User → User}

/-- Another user's record. -/
theorem Mine.ne_of_record (h : Mine users name fd i u) {other : Bytes} (hrec : Record users other j v)
    (hne : other ≠ name.bytes) : j ≠ i ∧ v.socketFd ≠ fd := by
  have hij : j ≠ i := Table.At.ne hrec h.record hne
  exact ⟨hij, fun hfd => hij (h.only j v hrec.get hfd)⟩

theorem Mine.modify_ne (h : Mine users name fd i u) (hj : users[j]? = some v) (hij : j ≠ i)
    (hname : ∀ u, (f u).name = u.name) (hfd : (f v).socketFd ≠ fd) : Mine (users.modify j f) name fd i u := by
  refine ⟨h.record.modify_ne hname hij, h.socket, h.status, h.session, fun k w hk hw => ?_⟩
  by_cases hjk : j = k
  · subst hjk
    rw [List.getElem?_modify_eq, hj, Option.map_eq_map, Option.map_some, Option.some.injEq] at hk
    rw [← hk] at hw
    exact absurd hw hfd
  · rw [List.getElem?_modify_ne _ _ hjk] at hk
    exact h.only k w hk hw

theorem Mine.modify_self (h : Mine users name fd i u) (hname : ∀ u, (f u).name = u.name)
    (hfd : (f u).socketFd = u.socketFd) (hstatus : (f u).status = u.status)
    (hsession : (f u).inSession = .online → (f u).sessionId ≠ notInSession) :
    Mine (users.modify i f) name fd i (f u) := by
  refine ⟨h.record.modify_self hname, hfd.trans h.socket, hstatus.trans h.status, hsession, fun k w hk hw => ?_⟩
  by_cases hik : i = k
  · exact hik.symm
  · rw [List.getElem?_modify_ne _ _ hik] at hk
    exact h.only k w hk hw

theorem Mine.append (h : Mine users name fd i u) (hfd : v.socketFd ≠ fd) : Mine (users ++ [v]) name fd i u := by
  refine ⟨h.record.append _, h.socket, h.status, h.session, fun k w hk hw => ?_⟩
  by_cases hlt : k < users.length
  · rw [List.getElem?_append_left hlt] at hk
    exact h.only k w hk hw
  · rw [List.getElem?_append_right (Nat.le_of_not_lt hlt)] at hk
    have hmem := List.mem_of_getElem? hk
    rw [List.mem_singleton.1 hmem] at hw
    exact absurd hw hfd

/-- A session's last member is made administrator; nothing else changes. -/
theorem Mine.onlyUserAdmin (h : Mine users name fd i u) (sessionId : Bytes) :
    ∃ u', Mine (onlyUserAdmin users sessionId) name fd i u' ∧
      (u' = u ∨ u.sessionId.bytes = sessionId ∧ u' = u.setRole .admin) := by
  let g : User → User := fun u => if u.sessionId.bytes = sessionId then
    (if u.role = .user then { u with role := .admin } else u) else u
  have hg : ∀ u, g u = u ∨ u.sessionId.bytes = sessionId ∧ g u = u.setRole .admin := by
    intro u
    simp only [g]
    split
    · split
      · exact Or.inr ⟨‹_›, rfl⟩
      · exact Or.inl rfl
    · exact Or.inl rfl
  have hkeep : ∀ u, (g u).name = u.name ∧ (g u).socketFd = u.socketFd ∧ (g u).status = u.status ∧
      (g u).inSession = u.inSession ∧ (g u).sessionId = u.sessionId := by
    intro u
    rcases hg u with h | ⟨-, h⟩ <;> rw [h] <;> exact ⟨rfl, rfl, rfl, rfl, rfl⟩
  obtain ⟨-, hfd, hstatus, hin, hid⟩ := hkeep u
  refine ⟨g u, ⟨h.record.map fun u => (hkeep u).1, hfd.trans h.socket, hstatus.trans h.status, ?_, ?_⟩, hg u⟩
  · rw [hin, hid]
    exact h.session
  · intro k w hk hw
    rw [Conferencing.onlyUserAdmin, List.getElem?_map] at hk
    obtain ⟨x, hx, rfl⟩ := Option.map_eq_some_iff.1 hk
    exact h.only k x hx ((hkeep x).2.1 ▸ hw)

/-- Of the same bytes sent to some records, one copy arrives at the socket if the user's record is among them. -/
theorem Mine.inbox_sentAll {m : Memory} (h : Mine users name fd i u) (p : User → Bool) (bytes : Bytes) :
    (m.sentAll (users.filter p) bytes).inbox fd = m.inbox fd ++ if p u then [bytes] else [] := by
  have hmine : users.filter (fun v => v.socketFd = fd) = [u] :=
    Table.filter_eq_singleton h.record.get (by simp [h.socket]) fun j v hj hv => h.only j v hj (by simpa using hv)
  have hswap : (users.filter p).filter (fun v => v.socketFd = fd) = [u].filter p := by
    rw [← hmine, List.filter_filter, List.filter_filter]
    simp only [Bool.and_comm]
  have hmap : ∀ l : List User, ((l.map fun v => (v.socketFd, bytes)).filter fun q => q.1 = fd).map Prod.snd =
      (l.filter fun v => v.socketFd = fd).map fun _ => bytes := by
    intro l
    rw [List.filter_map, List.map_map]
    rfl
  simp only [Memory.inbox, Memory.sentAll, List.filter_append, List.map_append, hmap, hswap, List.filter_cons,
    List.filter_nil]
  split <;> rfl

end Mine

/-! ### Notices -/

/-- What the record `u` becomes in an event of another connection, with the messages that its user is sent. -/
inductive Noticed (u : User) : User → List Bytes → Prop
  | quiet {messages : List Bytes} (htype : ∀ bytes ∈ messages, typeOf bytes = some MsgType.message) :
      Noticed u u messages
  | admin {bytes : Bytes} (htype : typeOf bytes = some MsgType.pmMessage) : Noticed u (u.setRole .admin) [bytes]
  | kicked {bytes : Bytes} (htype : typeOf bytes = some MsgType.kiMessage) : Noticed u u.kick [bytes]

/-- The flags say what the record says. -/
def Agrees (f : Status × Role) (u : User) : Prop :=
  (f.1 = .online ↔ u.inSession = .online) ∧ (u.inSession = .online → f.2 = u.role)

theorem settle_quiet {f : Status × Role} {messages : List Bytes}
    (h : ∀ bytes ∈ messages, typeOf bytes = some MsgType.message) : settle f messages = f := by
  induction messages generalizing f with
  | nil => rfl
  | cons bytes messages ih =>
    have hstep : settle f (bytes :: messages) = settle (settle f [bytes]) messages := rfl
    rw [hstep, settle_singleton (h bytes (by simp))]
    exact ih fun b hb => h b (List.mem_cons_of_mem _ hb)

theorem Noticed.agrees {u u' : User} {messages : List Bytes} (h : Noticed u u' messages) {f : Status × Role}
    (ha : Agrees f u) : Agrees (settle f messages) u' := by
  cases h with
  | quiet htype =>
    rw [settle_quiet htype]
    exact ha
  | admin htype =>
    rw [settle_singleton htype]
    exact ⟨ha.1, fun _ => rfl⟩
  | kicked htype =>
    rw [settle_singleton htype]
    exact ⟨⟨(nomatch ·), (nomatch ·)⟩, (nomatch ·)⟩

/-- No notice grants a session, or logs the client in. -/
theorem Noticed.types {u u' : User} {messages : List Bytes} (h : Noticed u u' messages) :
    ∀ bytes ∈ messages, typeOf bytes = some MsgType.message ∨ typeOf bytes = some MsgType.pmMessage ∨
      typeOf bytes = some MsgType.kiMessage := by
  cases h with
  | quiet htype => exact fun bytes hb => Or.inl (htype bytes hb)
  | admin htype =>
    intro bytes hb
    rw [List.mem_singleton.1 hb]
    exact Or.inr (Or.inl htype)
  | kicked htype =>
    intro bytes hb
    rw [List.mem_singleton.1 hb]
    exact Or.inr (Or.inr htype)

/-! ### Events of other connections -/

section Others

variable {m : Memory} {name : CStr maxName} {fd i j : Nat} {u v : User}

private theorem typeOf_notice : typeOf (wireOf MsgType.pmMessage serverName none) = some MsgType.pmMessage :=
  typeOf_wireOf _ _ (by decide)

/-- All administrators are told, whoever was promoted: who is one already hears it once more. -/
private theorem noticed_notified (h : Mine m.users name fd i u) {u₀ : User} (hu : u = u₀ ∨ u = u₀.setRole .admin)
    (hempty : m.inbox fd = []) : Noticed u₀ u ((notified m).inbox fd) := by
  rw [notified, h.inbox_sentAll, hempty, List.nil_append]
  by_cases hrole : u.role = .admin
  · have heq : u = u₀.setRole .admin := by
      rcases hu with rfl | rfl
      · show u = { u with role := .admin }
        rw [← hrole]
      · rfl
    rw [if_pos (by simpa using hrole), heq]
    exact .admin typeOf_notice
  · obtain rfl : u = u₀ := by
      rcases hu with rfl | rfl
      · rfl
      · exact absurd rfl hrole
    rw [if_neg (by simpa using hrole)]
    exact .quiet (by simp)

private theorem mine_leftTable (h : Mine m.users name fd i u) (hj : m.users[j]? = some v) (hij : j ≠ i)
    (hfd : v.socketFd ≠ fd) :
    ∃ u', Mine (leftTable m.users j v.sessionId.bytes) name fd i u' ∧ (u' = u ∨ u' = u.setRole .admin) := by
  have hleave : Mine (m.users.modify j User.leave) name fd i u := h.modify_ne hj hij (fun _ => rfl) hfd
  unfold leftTable
  dsimp only
  split
  · obtain ⟨u', hmine, hu'⟩ := hleave.onlyUserAdmin v.sessionId.bytes
    exact ⟨u', hmine, hu'.imp_right And.right⟩
  · exact ⟨u, hleave, Or.inl rfl⟩

theorem Exits.noticed {m' : Memory} {other : Bytes} (hx : Exits m other m') (h : Mine m.users name fd i u)
    (hne : other ≠ name.bytes) (hfd : fd ≠ offlineFd) (hempty : m.inbox fd = []) :
    ∃ u', Mine m'.users name fd i u' ∧ Noticed u u' (m'.inbox fd) := by
  cases hx with
  | out hrec _ =>
    obtain ⟨hij, -⟩ := h.ne_of_record hrec hne
    refine ⟨u, h.modify_ne hrec.get hij (fun _ => rfl) (Ne.symm hfd), ?_⟩
    rw [exited, Memory.inbox_setUsers, hempty]
    exact .quiet (by simp)
  | reserved hrec _ _ =>
    obtain ⟨hij, -⟩ := h.ne_of_record hrec hne
    exact ⟨u, h.modify_ne hrec.get hij (fun _ => rfl) (Ne.symm hfd), noticed_notified h (Or.inl rfl) hempty⟩
  | leaving hrec _ hid =>
    obtain ⟨hij, hsocket⟩ := h.ne_of_record hrec hne
    obtain ⟨u', hmine, hu'⟩ := mine_leftTable h hrec.get hij hsocket
    obtain ⟨w, hw, -⟩ := (changed_leftTable hrec.get hid).getElem? hrec.get
    exact ⟨u', hmine.modify_ne hw hij (fun _ => rfl) (Ne.symm hfd), noticed_notified hmine hu' hempty⟩

/-- An event of another connection that serves a message. -/
theorem Served.noticed {socketFd : Nat} {conn : Conn} {received : Message} {claimed : CStr maxName} {m' : Memory}
    {r : Option Conn} (hs : Served socketFd conn received claimed m r m') (h : Mine m.users name fd i u)
    (hne : conn.source.bytes ≠ name.bytes) (hsocket : socketFd ≠ fd) (hfd : fd ≠ offlineFd)
    (hcolon : colon ∉ claimed.bytes) (hempty : m.inbox fd = []) :
    ∃ u', Mine m'.users name fd i u' ∧ Noticed u u' (m'.inbox fd) := by
  have hquiet : ∀ {m' : Memory}, Mine m'.users name fd i u → m'.inbox fd = [] →
      ∃ u', Mine m'.users name fd i u' ∧ Noticed u u' (m'.inbox fd) := by
    intro m' hmine hnone
    exact ⟨u, hmine, by rw [hnone]; exact .quiet (by simp)⟩
  cases hs with
  | @answered dest _ _ _ _ _ hdest =>
    have hdest' : dest ≠ fd := by
      rcases hdest with rfl | ⟨j, v, hrec, rfl⟩
      · exact hsocket
      · exact (h.ne_of_record hrec hne).2
    exact hquiet h (by rw [Memory.inbox_sent_ne _ _ hdest', hempty])
  | echoed _ => exact hquiet h (by rw [Memory.inbox_sent_ne _ _ hsocket, hempty])
  | @loggedIn j v _ hrec hoff =>
    have hclaimed : claimed.bytes ≠ name.bytes := by
      intro heq
      rw [heq] at hrec
      obtain ⟨-, rfl⟩ := hrec.unique h.record
      rw [h.status] at hoff
      cases hoff
    obtain ⟨hij, -⟩ := h.ne_of_record hrec hclaimed
    exact hquiet (h.modify_ne hrec.get hij (fun _ => rfl) hsocket)
      (by rw [Memory.inbox_sent_ne _ _ hsocket, Memory.inbox_setUsers, hempty])
  | registered _ _ _ _ =>
    exact hquiet (h.append hsocket)
      (by rw [Memory.inbox_sent_ne _ _ hsocket, Memory.inbox_appended, Memory.inbox_setUsers, hempty])
  | exited _ hx => exact hx.noticed h hne hfd hempty
  | created _ _ hrec _ _ =>
    obtain ⟨hij, hdest⟩ := h.ne_of_record hrec hne
    exact hquiet (h.modify_ne hrec.get hij (fun _ => rfl) hdest)
      (by rw [Memory.inbox_sent_ne _ _ hdest, Memory.inbox_setUsers, hempty])
  | joined _ _ hrec _ _ =>
    obtain ⟨hij, hdest⟩ := h.ne_of_record hrec hne
    exact hquiet (h.modify_ne hrec.get hij (fun _ => rfl) hdest)
      (by rw [Memory.inbox_sent_ne _ _ hdest, Memory.inbox_setUsers, hempty])
  | leftOut _ _ _ => exact hquiet h hempty
  | leftReserved _ _ _ _ => exact ⟨u, h, noticed_notified h (Or.inl rfl) hempty⟩
  | left _ hrec _ _ =>
    obtain ⟨hij, hdest⟩ := h.ne_of_record hrec hne
    obtain ⟨u', hmine, hu'⟩ := mine_leftTable h hrec.get hij hdest
    exact ⟨u', hmine, noticed_notified hmine hu' hempty⟩
  | relayed _ _ hsize =>
    refine ⟨u, h, ?_⟩
    rw [recipients, h.inbox_sentAll, hempty, List.nil_append]
    refine .quiet fun bytes hb => ?_
    split at hb
    · rw [List.mem_singleton.1 hb]
      exact typeOf_chatWire hcolon hsize
    · cases hb
  | @kicked j k own t _ hrec ht _ =>
    obtain ⟨hji, hdest⟩ := h.ne_of_record hrec hne
    by_cases hk : k = i
    · subst hk
      obtain rfl : t = u := Option.some.inj (ht.get.symm.trans h.record.get)
      refine ⟨t.kick, h.modify_self (fun _ => rfl) rfl rfl (nomatch ·), ?_⟩
      have hinbox : (Conferencing.kicked m j own k t conn.source).inbox fd = [wireOf MsgType.kiMessage serverName
          (some ((if j = k then notInSession else own.sessionId).widen maxSessionLength_le))] := by
        rw [Conferencing.kicked, Memory.inbox_sent_ne _ _ hdest, h.socket, Memory.inbox_sent, Memory.inbox_setUsers,
          hempty, List.nil_append]
      rw [hinbox]
      exact .kicked (typeOf_wireOf _ _ (by decide))
    · have hsocket' : t.socketFd ≠ fd := fun heq => hk (h.only k t ht.get heq)
      exact hquiet (h.modify_ne ht.get hk (fun _ => rfl) hsocket') (by
        rw [Conferencing.kicked, Memory.inbox_sent_ne _ _ hdest, Memory.inbox_sent_ne _ _ hsocket',
          Memory.inbox_setUsers, hempty])
  | @promoted j k own t _ hrec ht _ =>
    obtain ⟨hji, hdest⟩ := h.ne_of_record hrec hne
    obtain ⟨own', hown', hsame⟩ : ∃ own', (m.users.modify k (User.setRole .admin))[j]? = some own' ∧
        own'.socketFd = own.socketFd := by
      rw [List.getElem?_modify, hrec.get]
      refine ⟨_, rfl, ?_⟩
      split <;> rfl
    by_cases hk : k = i
    · subst hk
      obtain rfl : t = u := Option.some.inj (ht.get.symm.trans h.record.get)
      have hself : Mine (m.users.modify k (User.setRole .admin)) name fd k (t.setRole .admin) :=
        h.modify_self (fun _ => rfl) rfl rfl h.session
      refine ⟨t.setRole .admin, hself.modify_ne hown' hji (fun _ => rfl) (hsame ▸ hdest), ?_⟩
      have hinbox : (Conferencing.promoted m j own k t conn.source).inbox fd =
          [wireOf MsgType.pmMessage serverName none] := by
        rw [Conferencing.promoted, Memory.inbox_sent_ne _ _ hdest, h.socket, Memory.inbox_sent, Memory.inbox_setUsers,
          hempty, List.nil_append]
      rw [hinbox]
      exact .admin typeOf_notice
    · have hsocket' : t.socketFd ≠ fd := fun heq => hk (h.only k t ht.get heq)
      have hother : Mine (m.users.modify k (User.setRole .admin)) name fd i u :=
        h.modify_ne ht.get hk (fun _ => rfl) hsocket'
      exact hquiet (hother.modify_ne hown' hji (fun _ => rfl) (hsame ▸ hdest)) (by
        rw [Conferencing.promoted, Memory.inbox_sent_ne _ _ hdest, Memory.inbox_sent_ne _ _ hsocket',
          Memory.inbox_setUsers, hempty])

/-- The socket of an event. -/
def Event.socket : Event → Nat
  | .accept socketFd _ => socketFd
  | .recv socketFd _ => socketFd
  | .disconnect socketFd => socketFd

theorem Turn.conns_ne {s t : ServerState} {e : Event} (hturn : Turn s e t) (hsocket : e.socket ≠ fd) :
    t.conns fd = s.conns fd := by
  have hset : ∀ w slot, (s.setConn e.socket w slot).conns fd = s.conns fd := fun w slot =>
    Function.update_of_ne (Ne.symm hsocket) _ _
  cases hturn <;> exact hset _ _

/-- A socket that no event is about has no connection. -/
theorem conns_afterEvents {events : List Event} {s : ServerState} (hs : afterEvents events = some s)
    (hfd : ∀ e ∈ events, e.socket ≠ fd) : s.conns fd = .closed := by
  have hkeep : ∀ (events : List Event) (s₀ : ServerState), runFrom ServerState.next s₀ events = some s →
      (∀ e ∈ events, e.socket ≠ fd) → s.conns fd = s₀.conns fd := by
    intro events
    induction events with
    | nil =>
      intro s₀ h _
      cases h
      rfl
    | cons e events ih =>
      intro s₀ h hne
      obtain ⟨s₁, hnext, h⟩ := Option.bind_eq_some_iff.1 h
      exact (ih s₁ h fun e' he' => hne e' (List.mem_cons_of_mem _ he')).trans
        ((ServerState.turn hnext).conns_ne (hne e (by simp)))
  exact hkeep events _ hs hfd

/-- Nobody takes the name of a user who is logged in. -/
theorem Served.source_ne {socketFd : Nat} {conn conn' : Conn} {received : Message} {claimed : CStr maxName}
    {m' : Memory} (hs : Served socketFd conn received claimed m (some conn') m') (h : Mine m.users name fd i u)
    (hne : conn.source ≠ name) : conn'.source ≠ name := by
  cases hs with
  | loggedIn _ hrec hoff =>
    rintro rfl
    obtain ⟨-, rfl⟩ := hrec.unique h.record
    rw [h.status] at hoff
    cases hoff
  | registered _ _ _ hnew =>
    rintro rfl
    have hfound := h.record.found
    rw [← databaseSearchUser, hnew] at hfound
    cases hfound
  | _ => exact hne

/-- The other connections go on under other names, if none is accepted under the name of the user. -/
theorem Turn.source_ne {s t : ServerState} {e : Event} (hturn : Turn s e t) (h : Mine s.world.mem.users name fd i u)
    (haccept : ∀ socketFd garbage, e = .accept socketFd garbage → garbage ≠ name) {socketFd : Nat} {conn : Conn}
    (hold : ∀ conn, s.conns socketFd = .running conn → conn.source ≠ name)
    (hconn : t.conns socketFd = .running conn) : conn.source ≠ name := by
  by_cases hsocket : e.socket = socketFd
  · cases hturn with
    | accepted _ _ =>
      obtain rfl := hsocket
      simp only [Event.socket, ServerState.setConn, Function.update_self, Slot.running.injEq] at hconn
      rw [← hconn]
      exact haccept _ _ rfl
    | @served _ _ _ _ _ r _ hconn₀ _ _ hserved =>
      obtain rfl := hsocket
      cases r with
      | none => simp [Event.socket, ServerState.setConn, slotOf] at hconn
      | some conn' =>
        simp only [Event.socket, ServerState.setConn, slotOf, Function.update_self, Slot.running.injEq] at hconn
        rw [← hconn]
        exact hserved.source_ne h (hold _ hconn₀)
    | recvWaits _ _ _ =>
      obtain rfl := hsocket
      simp [Event.socket, ServerState.setConn] at hconn
    | disconnected _ _ _ =>
      obtain rfl := hsocket
      simp [Event.socket, ServerState.setConn] at hconn
    | disconnectWaits _ _ _ =>
      obtain rfl := hsocket
      simp [Event.socket, ServerState.setConn] at hconn
  · rw [hturn.conns_ne hsocket] at hconn
    exact hold _ hconn

/-- An event of another connection does to the user's record what the messages it sends to the user say. -/
theorem Turn.noticed {s t : ServerState} {e : Event} (hturn : Turn s e t) (h : Mine s.world.mem.users name fd i u)
    (hne : ∀ conn, s.conns e.socket = .running conn → conn.source ≠ name) (hsocket : e.socket ≠ fd)
    (hfd : fd ≠ offlineFd) :
    ∃ u', Mine t.world.mem.users name fd i u' ∧ Noticed u u' (t.world.mem.inbox fd) := by
  have hempty : s.clear.mem.inbox fd = [] := rfl
  have hwaits : ∀ {w : World Mutex Memory}, w.mem = s.clear.mem →
      ∃ u', Mine w.mem.users name fd i u' ∧ Noticed u u' (w.mem.inbox fd) := by
    intro w hmem
    exact ⟨u, hmem ▸ h, by rw [hmem, hempty]; exact .quiet (by simp)⟩
  cases hturn with
  | accepted _ _ => exact hwaits rfl
  | served hconn hdec _ hserved =>
    exact hserved.noticed h (fun heq => hne _ hconn (CStr.ext heq)) hsocket hfd (decode_eq_some hdec).2.1 hempty
  | recvWaits _ _ hmem => exact hwaits hmem
  | disconnected hconn _ hserved =>
    rcases hserved with ⟨-, hmem⟩ | ⟨-, hx⟩
    · exact hwaits hmem
    · exact hx.noticed h (fun heq => hne _ hconn (CStr.ext heq)) hfd hempty
  | disconnectWaits _ _ hmem => exact hwaits hmem

end Others

end Conferencing
