import NetLabs.Conferencing.Serving

/-!
# Runs of the server

The cases of one event (`Turn`), what an event does to each record of the table (`Change`), and the facts that hold in
every reachable state: a connection that is logged in has a record, an administrator is in a session, and so is a user
whose session text is not the reserved one.
-/

namespace Conferencing

open CText LockProg Transition

/-! ### One event -/

/-- The locals of the thread that serves a socket. -/
def Slot.conn? : Slot → Option Conn
  | .running conn => some conn
  | _ => none

/-- The slot of a connection whose thread has returned from a turn of its loop. -/
def slotOf : Option Conn → Slot
  | some conn => .running conn
  | none => .closed

/-- The cases of one event. -/
inductive Turn (s : ServerState) : Event → ServerState → Prop
  | accepted {socketFd : Nat} {garbage : CStr maxName} (hfd : socketFd ≠ offlineFd)
      (hconn : s.conns socketFd = .closed) :
      Turn s (.accept socketFd garbage) (s.setConn socketFd s.clear (.running ⟨garbage, .offline⟩))
  | served {socketFd : Nat} {chunk : Bytes} {conn : Conn} {received : Message} {claimed : CStr maxName}
      {r : Option Conn} {w : World Mutex Memory} (hconn : s.conns socketFd = .running conn)
      (hdec : decode (recvBuffer chunk) = some (received, claimed))
      (hrun : serve socketFd conn chunk s.clear = .ret r w)
      (hserved : Served socketFd conn received claimed s.clear.mem r w.mem) :
      Turn s (.recv socketFd chunk) (s.setConn socketFd w (slotOf r))
  | recvWaits {socketFd : Nat} {chunk : Bytes} {conn : Conn} {w : World Mutex Memory}
      (hconn : s.conns socketFd = .running conn) (hrun : serve socketFd conn chunk s.clear = .blocked w)
      (hmem : w.mem = s.clear.mem) : Turn s (.recv socketFd chunk) (s.setConn socketFd w .stuck)
  | disconnected {socketFd : Nat} {conn : Conn} {w : World Mutex Memory} (hconn : s.conns socketFd = .running conn)
      (hrun : serveDisconnect conn s.clear = .ret none w)
      (hserved : conn.serverConnectionStatus = .offline ∧ w.mem = s.clear.mem ∨
        conn.serverConnectionStatus = .online ∧ Exits s.clear.mem conn.source.bytes w.mem) :
      Turn s (.disconnect socketFd) (s.setConn socketFd w .closed)
  | disconnectWaits {socketFd : Nat} {conn : Conn} {w : World Mutex Memory}
      (hconn : s.conns socketFd = .running conn) (hrun : serveDisconnect conn s.clear = .blocked w)
      (hmem : w.mem = s.clear.mem) : Turn s (.disconnect socketFd) (s.setConn socketFd w .stuck)

theorem ServerState.turn {s t : ServerState} {e : Event} (h : s.next e = some t) : Turn s e t := by
  cases e with
  | accept socketFd garbage =>
    simp only [ServerState.next, Option.ite_none_right_eq_some, Option.some.injEq] at h
    obtain ⟨⟨hfd, hconn⟩, rfl⟩ := h
    exact .accepted hfd hconn
  | recv socketFd chunk =>
    simp only [ServerState.next] at h
    split at h
    · rename_i conn hconn
      simp only [Option.ite_none_right_eq_some] at h
      have hyields := serve_yields socketFd conn chunk s.clear
      cases hrun : serve socketFd conn chunk s.clear with
      | ret r w =>
        rw [hrun] at h hyields
        obtain ⟨received, claimed, hdec, hserved⟩ := hyields
        cases r with
        | none =>
          cases h.2
          exact .served hconn hdec hrun hserved
        | some conn' =>
          cases h.2
          exact .served hconn hdec hrun hserved
      | blocked w =>
        rw [hrun] at h hyields
        cases h.2
        exact .recvWaits hconn hrun hyields
      | fault =>
        rw [hrun] at h
        cases h.2
    · cases h
  | disconnect socketFd =>
    simp only [ServerState.next] at h
    split at h
    · rename_i conn hconn
      have hyields := serveDisconnect_yields conn s.clear
      cases hrun : serveDisconnect conn s.clear with
      | ret r w =>
        rw [hrun] at h hyields
        obtain ⟨rfl, hserved⟩ := hyields
        cases h
        exact .disconnected hconn hrun hserved
      | blocked w =>
        rw [hrun] at h hyields
        cases h
        exact .disconnectWaits hconn hrun hyields
      | fault =>
        rw [hrun] at h
        cases h
    · cases h

/-- The record that a connection's name stands for. -/
def ownRecord (users : List User) (source : Bytes) : Option User :=
  (databaseSearchUser users source).bind (users[·]?)

theorem ownRecord_eq {users : List User} {name : Bytes} {i : Nat} {u : User} (hrec : Record users name i u) :
    ownRecord users name = some u := by
  simp [ownRecord, databaseSearchUser, hrec.found, hrec.get]

theorem ownRecord_none {users : List User} {name : Bytes} (h : databaseSearchUser users name = none) :
    ownRecord users name = none := by
  simp [ownRecord, h]

/-! ### What happens to a record -/

/-- One change to a record, with what is known of the record before it. -/
inductive Change : User → User → Prop
  | login (socketFd : Nat) (u : User) : Change u (u.login .online socketFd)
  | create (id : CStr maxSessionLength) (u : User) : Change u (u.create id)
  | join (id : CStr maxSessionLength) {u : User} (hin : u.inSession = .offline) : Change u (u.join id)
  | leave {u : User} (hid : u.sessionId ≠ notInSession) : Change u u.leave
  | onlyAdmin {u : User} (hid : u.sessionId ≠ notInSession) : Change u (u.setRole .admin)
  | exit (u : User) : Change u u.exit
  | kick {u : User} (hrole : u.role = .user) : Change u u.kick
  | promote {u : User} (hin : u.inSession = .online) : Change u (u.setRole .admin)
  | demote (u : User) : Change u (u.setRole .user)

/-- The table after some changes to its records. -/
abbrev Changed : List User → List User → Prop := List.Forall₂ (Relation.ReflTransGen Change)

theorem Changed.refl (users : List User) : Changed users users :=
  List.forall₂_same.2 fun _ _ => .refl

theorem Changed.trans {l₁ l₂ l₃ : List User} (h : Changed l₁ l₂) (h' : Changed l₂ l₃) : Changed l₁ l₃ := by
  induction h generalizing l₃ with
  | nil => exact h'
  | cons hhead _ ih =>
    cases h' with
    | cons hhead' htail' => exact .cons (hhead.trans hhead') (ih htail')

theorem Changed.modify {users : List User} {i : Nat} {u : User} {f : User → User} (hi : users[i]? = some u)
    (hf : Change u (f u)) : Changed users (users.modify i f) := by
  induction users generalizing i with
  | nil => cases hi
  | cons v users ih =>
    cases i with
    | zero =>
      cases hi
      exact .cons (.single hf) (Changed.refl users)
    | succ i => exact .cons .refl (ih hi)

theorem Changed.of_mem {l l' : List User} (h : Changed l l') {u' : User} (hu : u' ∈ l') :
    ∃ u ∈ l, Relation.ReflTransGen Change u u' := by
  induction h with
  | nil => cases hu
  | cons hhead _ ih =>
    rcases List.mem_cons.1 hu with rfl | hu
    · exact ⟨_, by simp, hhead⟩
    · obtain ⟨u, hmem, hchange⟩ := ih hu
      exact ⟨u, List.mem_cons_of_mem _ hmem, hchange⟩

theorem Changed.getElem? {l l' : List User} (h : Changed l l') {i : Nat} {u : User} (hu : l[i]? = some u) :
    ∃ u', l'[i]? = some u' ∧ Relation.ReflTransGen Change u u' := by
  induction h generalizing i with
  | nil => cases hu
  | cons hhead _ ih =>
    cases i with
    | zero =>
      cases hu
      exact ⟨_, rfl, hhead⟩
    | succ i => exact ih hu

theorem Changed.map {users : List User} {f : User → User} (hf : ∀ u ∈ users, f u = u ∨ Change u (f u)) :
    Changed users (users.map f) := by
  induction users with
  | nil => exact .nil
  | cons u users ih =>
    refine .cons ?_ (ih fun v hv => hf v (List.mem_cons_of_mem _ hv))
    rcases hf u (by simp) with h | h
    · rw [h]
    · exact .single h

private theorem changed_onlyUserAdmin (users : List User) {sessionId : CStr maxSessionLength}
    (hid : sessionId ≠ notInSession) : Changed users (onlyUserAdmin users sessionId.bytes) := by
  apply Changed.map
  intro u _
  split
  · rename_i hu
    split
    · refine Or.inr (.onlyAdmin ?_)
      intro h
      exact hid (CStr.ext (hu ▸ congrArg CStr.bytes h))
    · exact Or.inl rfl
  · exact Or.inl rfl

theorem changed_leftTable {users : List User} {i : Nat} {u : User} (hi : users[i]? = some u)
    (hid : u.sessionId ≠ notInSession) : Changed users (leftTable users i u.sessionId.bytes) := by
  have hleave := Changed.modify hi (Change.leave hid)
  unfold leftTable
  dsimp only
  split
  · exact hleave.trans (changed_onlyUserAdmin _ hid)
  · exact hleave

theorem Exits.changed {m m' : Memory} {name : Bytes} (h : Exits m name m') : Changed m.users m'.users := by
  cases h with
  | out hrec _ => exact .modify hrec.get (.exit _)
  | reserved hrec _ _ => exact .modify hrec.get (.exit _)
  | @leaving i u hrec _ hid =>
    have hleft := changed_leftTable hrec.get hid
    obtain ⟨v, hv, -⟩ := hleft.getElem? hrec.get
    exact hleft.trans (.modify hv (.exit v))

theorem Exits.file_eq {m m' : Memory} {name : Bytes} (h : Exits m name m') : m'.file = m.file := by
  cases h <;> rfl

/-- Serving a message changes records, and a registration appends one to the table and to the file. -/
theorem Served.changed {socketFd : Nat} {conn : Conn} {received : Message} {claimed : CStr maxName} {m m' : Memory}
    {r : Option Conn} (h : Served socketFd conn received claimed m r m') :
    Changed m.users m'.users ∧ m'.file = m.file ∨
      received.type = MsgType.create ∧ ∃ password : CStr maxPasswordLength, password.bytes = cstr received.data.bytes ∧
        m.users.length < maxUserCount ∧ databaseSearchUser m.users claimed.bytes = none ∧
        m'.users = m.users ++ [registeredUser claimed password socketFd] ∧
        m'.file = m.file ++ recordLine claimed.bytes password.bytes := by
  cases h with
  | answered _ _ _ => exact Or.inl ⟨Changed.refl _, rfl⟩
  | echoed _ => exact Or.inl ⟨Changed.refl _, rfl⟩
  | loggedIn _ hrec _ => exact Or.inl ⟨.modify hrec.get (.login _ _), rfl⟩
  | @registered password htype hpw hroom hnew => exact Or.inr ⟨htype, password, hpw, hroom, hnew, rfl, rfl⟩
  | exited _ h => exact Or.inl ⟨h.changed, h.file_eq⟩
  | created _ _ hrec _ _ => exact Or.inl ⟨.modify hrec.get (.create _ _), rfl⟩
  | @joined i u sessionId id _ _ hrec _ href =>
    exact Or.inl ⟨.modify hrec.get (.join id (joinRefusal_eq_none href).1), rfl⟩
  | leftOut _ _ _ => exact Or.inl ⟨Changed.refl _, rfl⟩
  | leftReserved _ _ _ _ => exact Or.inl ⟨Changed.refl _, rfl⟩
  | left _ hrec _ hid => exact Or.inl ⟨changed_leftTable hrec.get hid, rfl⟩
  | relayed _ _ _ => exact Or.inl ⟨Changed.refl _, rfl⟩
  | kicked _ hrec ht href =>
    obtain ⟨j', t', ht', -, -, -, hrole⟩ := refusal_eq_none href
    obtain ⟨rfl, rfl⟩ := ht.unique ht'
    exact Or.inl ⟨.modify ht.get (.kick hrole), rfl⟩
  | @promoted i j u t _ hrec ht href =>
    obtain ⟨j', t', ht', -, hin, -, -⟩ := refusal_eq_none href
    obtain ⟨rfl, rfl⟩ := ht.unique ht'
    have hpromote := Changed.modify ht.get (.promote hin)
    obtain ⟨v, hv, -⟩ := hpromote.getElem? hrec.get
    exact Or.inl ⟨hpromote.trans (.modify hv (.demote v)), rfl⟩

/-- An event stores at most one new account, in the table and in the file. -/
theorem Turn.stored {s t : ServerState} {e : Event} (hturn : Turn s e t) :
    Changed s.world.mem.users t.world.mem.users ∧ t.world.mem.file = s.world.mem.file ∨
      ∃ username password socketFd, s.world.mem.users.length < maxUserCount ∧
        databaseSearchUser s.world.mem.users username.bytes = none ∧
        t.world.mem.users = s.world.mem.users ++ [registeredUser username password socketFd] ∧
        t.world.mem.file = s.world.mem.file ++ recordLine username.bytes password.bytes := by
  have hwaits : ∀ {w : World Mutex Memory}, w.mem = s.clear.mem →
      Changed s.world.mem.users w.mem.users ∧ w.mem.file = s.world.mem.file := by
    intro w hmem
    rw [hmem]
    exact ⟨Changed.refl _, rfl⟩
  cases hturn with
  | accepted _ _ => exact Or.inl ⟨Changed.refl _, rfl⟩
  | @served socketFd _ _ _ claimed _ _ _ _ _ hserved =>
    rcases hserved.changed with h | ⟨-, password, -, hroom, hnew, husers, hfile⟩
    · exact Or.inl h
    · exact Or.inr ⟨claimed, password, socketFd, hroom, hnew, husers, hfile⟩
  | recvWaits _ _ hmem => exact Or.inl (hwaits hmem)
  | disconnected _ _ hserved =>
    rcases hserved with ⟨-, hmem⟩ | ⟨-, h⟩
    · exact Or.inl (hwaits hmem)
    · exact Or.inl ⟨h.changed, h.file_eq⟩
  | disconnectWaits _ _ hmem => exact Or.inl (hwaits hmem)

/-- One event changes records and appends at most one that has just been registered. -/
theorem Turn.changed {s t : ServerState} {e : Event} (h : Turn s e t) :
    Changed s.world.mem.users t.world.mem.users ∨ ∃ username password socketFd,
      t.world.mem.users = s.world.mem.users ++ [registeredUser username password socketFd] := by
  rcases h.stored with ⟨hchanged, -⟩ | ⟨username, password, socketFd, -, -, husers, -⟩
  · exact Or.inl hchanged
  · exact Or.inr ⟨username, password, socketFd, husers⟩

/-! ### Names and passwords -/

/-- The account of a record. -/
def User.account (u : User) : CStr maxName × CStr maxPasswordLength := (u.username, u.password)

/-- The accounts of a table, in order. -/
abbrev accounts (users : List User) : List (CStr maxName × CStr maxPasswordLength) := users.map User.account

theorem Change.account {u u' : User} (h : Change u u') : u'.account = u.account := by
  cases h <;> rfl

theorem Changed.accounts {l l' : List User} (h : Changed l l') : accounts l' = accounts l := by
  induction h with
  | nil => rfl
  | @cons u u' _ _ hhead _ ih =>
    have hu : u'.account = u.account := by
      induction hhead with
      | refl => rfl
      | tail _ hstep ih => exact hstep.account.trans ih
    simp only [Conferencing.accounts, List.map_cons, hu] at ih ⊢
    rw [ih]

theorem names_of_accounts {l l' : List User} (h : accounts l' = accounts l) : l'.map User.name = l.map User.name := by
  have hmap : ∀ l : List User, l.map User.name = (accounts l).map fun a => a.1.bytes := by
    intro l
    rw [List.map_map]
    rfl
  rw [hmap, hmap, h]

theorem Changed.search {l l' : List User} (h : Changed l l') (name : Bytes) :
    databaseSearchUser l' name = databaseSearchUser l name :=
  Table.search_congr (names_of_accounts h.accounts)

/-- A record keeps its place and its name. -/
theorem Changed.record {l l' : List User} (h : Changed l l') {name : Bytes} {i : Nat} {u : User}
    (hrec : Record l name i u) : ∃ u', Record l' name i u' ∧ Relation.ReflTransGen Change u u' := by
  obtain ⟨u', hget, hchange⟩ := h.getElem? hrec.get
  exact ⟨u', ⟨(h.search name).trans hrec.found, hget⟩, hchange⟩

theorem Turn.record {s t : ServerState} {e : Event} (h : Turn s e t) {name : Bytes} {i : Nat} {u : User}
    (hrec : Record s.world.mem.users name i u) :
    ∃ u', Record t.world.mem.users name i u' ∧ Relation.ReflTransGen Change u u' := by
  rcases h.changed with h | ⟨_, _, _, h⟩
  · exact h.record hrec
  · rw [h]
    exact ⟨u, hrec.append _, .refl⟩

/-! ### Facts about every reachable state -/

/-- A property of records that every change keeps, and that loaded and registered records have, holds of every record
in every reachable state. -/
theorem forall_users {P : User → Prop} (hloaded : ∀ username password, P (loadedUser username password))
    (hregistered : ∀ username password socketFd, P (registeredUser username password socketFd))
    (hchange : ∀ u u', P u → Change u u' → P u') {s : ServerState} (hr : Reachable server s) :
    ∀ u ∈ s.world.mem.users, P u := by
  induction hr with
  | init h =>
    obtain ⟨file, users, hload, rfl⟩ := h
    exact hload.forall_users hloaded
  | step _ hst ih =>
    intro u' hu'
    rcases (ServerState.turn hst).changed with h | ⟨username, password, socketFd, h⟩
    · obtain ⟨u, hu, hchanged⟩ := h.of_mem hu'
      exact Relation.ReflTransGen.head_induction_on (motive := fun v _ => P v → P u') hchanged id
        (fun hstep _ ih hv => ih (hchange _ _ hv hstep)) (ih u hu)
    · rw [h] at hu'
      rcases List.mem_append.1 hu' with hu' | hu'
      · exact ih u' hu'
      · rw [List.mem_singleton.1 hu']
        exact hregistered _ _ _

/-- What relates the role, the flag and the session text of a record. -/
structure User.Consistent (u : User) : Prop where
  admin : u.role = .admin → u.inSession = .online
  session : u.sessionId ≠ notInSession → u.inSession = .online

private theorem Change.consistent {u u' : User} (h : u.Consistent) (hc : Change u u') : u'.Consistent := by
  cases hc with
  | login => exact ⟨h.admin, h.session⟩
  | create => exact ⟨fun _ => rfl, fun _ => rfl⟩
  | join => exact ⟨fun _ => rfl, fun _ => rfl⟩
  | leave => exact ⟨(nomatch ·), fun hid => absurd rfl hid⟩
  | onlyAdmin hid => exact ⟨fun _ => h.session hid, h.session⟩
  | exit => exact ⟨h.admin, h.session⟩
  | kick hrole =>
    refine ⟨fun hadmin => ?_, fun hid => absurd rfl hid⟩
    have : u.role = .admin := hadmin
    rw [hrole] at this
    cases this
  | promote hin => exact ⟨fun _ => hin, h.session⟩
  | demote => exact ⟨(nomatch ·), h.session⟩

theorem consistent_of_reachable {s : ServerState} (hr : Reachable server s) :
    ∀ u ∈ s.world.mem.users, u.Consistent :=
  forall_users (fun _ _ => ⟨(nomatch ·), fun hid => absurd rfl hid⟩)
    (fun _ _ _ => ⟨(nomatch ·), fun hid => absurd rfl hid⟩) (fun _ _ h hc => hc.consistent h) hr

/-! ### Connections -/

private theorem ServerState.conns_setConn {s : ServerState} {fd fd' : Nat} {w : World Mutex Memory} {slot : Slot}
    {c : Conn}
    (h : (s.setConn fd w slot).conns fd' = .running c) : fd' = fd ∧ slot = .running c ∨ s.conns fd' = .running c := by
  by_cases hfd : fd' = fd
  · subst hfd
    left
    simpa [ServerState.setConn] using h
  · right
    simpa [ServerState.setConn, hfd] using h

/-- The locals of a connection change only when it logs in or registers, and then it has a record. -/
private theorem Served.conn_eq {socketFd : Nat} {conn conn' : Conn} {received : Message} {claimed : CStr maxName}
    {m m' : Memory} (h : Served socketFd conn received claimed m (some conn') m') :
    conn' = conn ∨ conn' = ⟨claimed, .online⟩ ∧ ∃ i u, Record m'.users claimed.bytes i u := by
  cases h with
  | @loggedIn i u _ hrec _ => exact Or.inr ⟨rfl, i, u.login .online socketFd, hrec.modify_self fun _ => rfl⟩
  | @registered password _ _ _ hnew =>
    exact Or.inr ⟨rfl, _, registeredUser claimed password socketFd, .append_new hnew rfl⟩
  | _ => exact Or.inl rfl

theorem Turn.running {s t : ServerState} {e : Event} (h : Turn s e t) {fd : Nat} {c : Conn}
    (hconn : t.conns fd = .running c) : s.conns fd = .running c ∨ c.serverConnectionStatus = .offline ∨
      (∃ i u, Record t.world.mem.users c.source.bytes i u) ∧ colon ∉ c.source.bytes := by
  cases h with
  | accepted _ _ =>
    rcases ServerState.conns_setConn hconn with ⟨-, hslot⟩ | hold
    · cases hslot
      exact Or.inr (Or.inl rfl)
    · exact Or.inl hold
  | @served fd' _ conn _ _ r _ hconn₀ hdec _ hserved =>
    rcases ServerState.conns_setConn hconn with ⟨rfl, hslot⟩ | hold
    · cases r with
      | none => cases hslot
      | some conn' =>
        cases hslot
        rcases hserved.conn_eq with rfl | ⟨rfl, hrec⟩
        · exact Or.inl hconn₀
        · exact Or.inr (Or.inr ⟨hrec, (decode_eq_some hdec).2.1⟩)
    · exact Or.inl hold
  | recvWaits _ _ _ =>
    rcases ServerState.conns_setConn hconn with ⟨-, hslot⟩ | hold
    · cases hslot
    · exact Or.inl hold
  | disconnected _ _ _ =>
    rcases ServerState.conns_setConn hconn with ⟨-, hslot⟩ | hold
    · cases hslot
    · exact Or.inl hold
  | disconnectWaits _ _ _ =>
    rcases ServerState.conns_setConn hconn with ⟨-, hslot⟩ | hold
    · cases hslot
    · exact Or.inl hold

/-- A connection that is logged in acts under a name of the table, without a colon. -/
theorem record_of_reachable {s : ServerState} (hr : Reachable server s) {socketFd : Nat} {conn : Conn}
    (hconn : s.conns socketFd = .running conn) (hon : conn.serverConnectionStatus = .online) :
    (∃ i u, Record s.world.mem.users conn.source.bytes i u) ∧ colon ∉ conn.source.bytes := by
  induction hr generalizing socketFd conn with
  | init h =>
    obtain ⟨file, users, -, rfl⟩ := h
    cases hconn
  | @step s t e _ hst ih =>
    have hturn := ServerState.turn hst
    rcases hturn.running hconn with hold | hoff | hrec
    · obtain ⟨⟨i, u, hrec⟩, hcolon⟩ := ih hold hon
      obtain ⟨u', hrec', -⟩ := hturn.record hrec
      exact ⟨⟨i, u', hrec'⟩, hcolon⟩
    · rw [hon] at hoff
      cases hoff
    · exact hrec

/-! ### Runs on an empty database file -/

/-- The server after some events. -/
def afterEvents (events : List Event) : Option ServerState := runFrom ServerState.next (started [] []) events

theorem reachable_afterEvents {events : List Event} {s : ServerState} (h : afterEvents events = some s) :
    Reachable server s := by
  have hinit : server.init (started [] []) := ⟨[], [], ⟨1, rfl⟩, rfl⟩
  exact Reachable.runFrom (fun _ _ _ h => h) (.init hinit) h

/-- `bob` creates the session `s`, and `ann` joins it. -/
def bobAndAnn : List Event :=
  [.accept 3 serverName, .recv 3 (ascii "13:1:bob:x"), .recv 3 (ascii "8:1:bob:s"), .accept 4 serverName,
    .recv 4 (ascii "13:1:ann:x"), .recv 4 (ascii "4:1:ann:s")]

/-- The last of some events, between the two states around it. -/
theorem afterEvents_last (events : List Event) (e : Event) (h : (afterEvents (events ++ [e])).isSome = true) :
    ∃ s t, afterEvents events = some s ∧ s.next e = some t ∧ afterEvents (events ++ [e]) = some t := by
  obtain ⟨t, ht⟩ := Option.isSome_iff_exists.1 h
  have hsplit := ht
  rw [afterEvents, runFrom_append] at hsplit
  obtain ⟨s, hs, hlast⟩ := Option.bind_eq_some_iff.1 hsplit
  obtain ⟨t', hnext, hend⟩ := Option.bind_eq_some_iff.1 hlast
  cases hend
  exact ⟨s, t, hs, hnext, ht⟩

/-- The same when every event meets a condition. -/
def afterEventsWhen (cond : ServerState → Event → Prop) [∀ s, DecidablePred (cond s)] (events : List Event) :
    Option ServerState :=
  runFrom (guarded cond ServerState.next) (started [] []) events

theorem reachable_afterEventsWhen {cond : ServerState → Event → Prop} [∀ s, DecidablePred (cond s)]
    {events : List Event} {s : ServerState} (h : afterEventsWhen cond events = some s) :
    Reachable (server.when cond) s :=
  reachable_guarded (fun _ _ _ h => h) ⟨[], [], ⟨1, rfl⟩, rfl⟩ h

/-- What is computed of the state after some events holds of it. -/
theorem of_afterEvents {α : Type} {events : List Event} {s : ServerState} (hs : afterEvents events = some s)
    {f : ServerState → α} {a : α} (h : (afterEvents events).map f = some a) : f s = a := by
  rw [hs] at h
  exact Option.some.inj h

end Conferencing
