import NetLabs.Conferencing.Switching

/-!
# The notices of a promotion

`user_exit_current_session` promotes the last member of the session that is left, and `server_side_session_leave` then
sends `PM_MESSAGE` to every administrator of the whole table.  The two agree exactly when there was no administrator but
the user who leaves (`promotion_notices`).
-/

namespace Conferencing

open CText LockProg Transition

/-- The records, before and after, of the users whose role changes from `USER` to `ADMIN`. -/
def promotions (before after : List User) : List (User × User) :=
  (before.zip after).filter fun p => decide (p.1.role = .user) && decide (p.2.role = .admin)

/-- `PM_MESSAGE` has gone to the promoted users, and to nobody else. -/
def NoticesPromoted (s t : ServerState) : Prop :=
  t.world.mem.outbox = (promotions s.world.mem.users t.world.mem.users).map fun p =>
    (p.1.socketFd, wireOf MsgType.pmMessage serverName none)

/-- A connection asks to leave the session, or ends. -/
def AsksToLeave (conn : Conn) : Event → Prop
  | .recv _ chunk => ∃ p, decode (recvBuffer chunk) = some p ∧
      (p.1.type = MsgType.leaveSess ∨ p.1.type = MsgType.exit)
  | .disconnect _ => conn.serverConnectionStatus = .online
  | .accept _ _ => False

/-- The event makes the user `u` at `i`, who is in a session, leave, and its handler comes to its end. -/
structure Departs (s : ServerState) (e : Event) (t : ServerState) (i : Nat) (u : User) : Prop where
  next : s.next e = some t
  asks : ∃ conn, s.conns e.socket = .running conn ∧ Record s.world.mem.users conn.source.bytes i u ∧ AsksToLeave conn e
  inSession : u.inSession = .online
  ended : t.conns e.socket ≠ .stuck

section Departs

variable {s t : ServerState} {e : Event} {i : Nat} {u : User} {socketFd : Nat} {conn : Conn} {received : Message}
  {claimed : CStr maxName} {m m' : Memory} {r : Option Conn}

/-- The table that the notices are read off: that of before when the session is the reserved one. -/
inductive NoticeTable (users : List User) (i : Nat) (u : User) : List User → Prop
  | reserved (hid : u.sessionId = notInSession) : NoticeTable users i u users
  | left (hid : u.sessionId ≠ notInSession) : NoticeTable users i u (leftTable users i u.sessionId.bytes)

private theorem Served.departs (h : Served socketFd conn received claimed m r m')
    (htype : received.type = MsgType.leaveSess) (hrec : Record m.users conn.source.bytes i u)
    (hin : u.inSession = .online) : ∃ users, NoticeTable m.users i u users ∧ m' = notified (m.setUsers users) := by
  cases h with
  | answered h _ _ =>
    rw [htype] at h
    cases h
  | echoed h => simp [requests, htype] at h
  | leftOut _ hrec' hout =>
    obtain ⟨rfl, rfl⟩ := hrec.unique hrec'
    rw [hin] at hout
    cases hout
  | leftReserved _ hrec' _ hid =>
    obtain ⟨rfl, rfl⟩ := hrec.unique hrec'
    exact ⟨_, .reserved hid, rfl⟩
  | left _ hrec' _ hid =>
    obtain ⟨rfl, rfl⟩ := hrec.unique hrec'
    exact ⟨_, .left hid, rfl⟩
  | _ => exact absurd (‹received.type = _›.symm.trans htype) (by decide)

private theorem Served.exits (h : Served socketFd conn received claimed m r m') (htype : received.type = MsgType.exit) :
    Exits m conn.source.bytes m' := by
  cases h with
  | answered h _ _ => exact absurd htype h.ne_exit
  | echoed h => simp [requests, htype] at h
  | exited _ h => exact h
  | _ => exact absurd (‹received.type = _›.symm.trans htype) (by decide)

private theorem Exits.departs {name : Bytes} (h : Exits m name m') (hrec : Record m.users name i u)
    (hin : u.inSession = .online) :
    ∃ users, NoticeTable m.users i u users ∧ m' = exited (notified (m.setUsers users)) i := by
  cases h with
  | out hrec' hout =>
    obtain ⟨rfl, rfl⟩ := hrec.unique hrec'
    rw [hin] at hout
    cases hout
  | reserved hrec' _ hid =>
    obtain ⟨rfl, rfl⟩ := hrec.unique hrec'
    exact ⟨_, .reserved hid, rfl⟩
  | leaving hrec' _ hid =>
    obtain ⟨rfl, rfl⟩ := hrec.unique hrec'
    exact ⟨_, .left hid, rfl⟩

/-- What the handler does: it leaves, sends the notices, and a thread that ends then clears the status of its user. -/
theorem Departs.memory (h : Departs s e t i u) : ∃ users, NoticeTable s.world.mem.users i u users ∧
    (t.world.mem = notified (s.clear.mem.setUsers users) ∨
      t.world.mem = exited (notified (s.clear.mem.setUsers users)) i) := by
  obtain ⟨conn, hconn, hrec, hasks⟩ := h.asks
  have hrec' : Record s.clear.mem.users conn.source.bytes i u := hrec
  have hstuck : ∀ {w : World Mutex Memory}, (s.setConn e.socket w .stuck).conns e.socket = .stuck := by
    intro w
    simp [ServerState.setConn]
  cases ServerState.turn h.next with
  | accepted _ _ => exact hasks.elim
  | served hconn' hdec _ hserved =>
    cases hconn.symm.trans hconn'
    obtain ⟨p, hp, htype⟩ := hasks
    cases hdec.symm.trans hp
    rcases htype with htype | htype
    · obtain ⟨users, htable, hm⟩ := hserved.departs htype hrec' h.inSession
      exact ⟨users, htable, Or.inl hm⟩
    · obtain ⟨users, htable, hm⟩ := (hserved.exits htype).departs hrec' h.inSession
      exact ⟨users, htable, Or.inr hm⟩
  | recvWaits _ _ _ => exact absurd hstuck h.ended
  | disconnected hconn' _ hserved =>
    cases hconn.symm.trans hconn'
    rcases hserved with ⟨hoff, -⟩ | ⟨-, hx⟩
    · have hon : conn.serverConnectionStatus = .online := hasks
      rw [hon] at hoff
      cases hoff
    · obtain ⟨users, htable, hm⟩ := hx.departs hrec' h.inSession
      exact ⟨users, htable, Or.inr hm⟩
  | disconnectWaits _ _ _ => exact absurd hstuck h.ended

/-! ### Who is notified -/

/-- Leaving keeps the sockets, takes the role of the user who leaves, and no other administrator's. -/
private theorem NoticeTable.roles {users table : List User} {name : Bytes} (h : NoticeTable users i u table)
    (hrec : Record users name i u) (hin : u.inSession = .online) :
    Table.Pointwise (fun k v v' => v'.socketFd = v.socketFd ∧
      (if k = i ∧ u.sessionId ≠ notInSession then v'.role = .user else v.role = .admin → v'.role = .admin)) users table := by
  cases h with
  | reserved hid =>
    refine .refl fun k v _ => ⟨rfl, ?_⟩
    rw [if_neg fun hk => hk.2 hid]
    exact id
  | left hid =>
    refine (leaves_leftTable hrec hin hid).mono fun k v v' hk hleaves => ?_
    cases hleaves with
    | same hne =>
      refine ⟨rfl, ?_⟩
      have hki : k ≠ i := by
        rintro rfl
        exact hne hrec.found
      rw [if_neg fun h => hki h.1]
      exact id
    | own hrec' _ _ =>
      refine ⟨rfl, ?_⟩
      rw [if_pos ⟨(hrec'.unique hrec).1, hid⟩]
      rfl
    | last h =>
      obtain ⟨j, own, hrec', -, -, hne, -⟩ := h
      refine ⟨rfl, ?_⟩
      rw [if_neg fun h => hne (h.1.trans (hrec.unique hrec').1)]
      exact fun _ => rfl

/-- The notices, written with the records of before and after. -/
private theorem notices_eq_zip {before table after : List User}
    (hsocket : table.map User.socketFd = before.map User.socketFd)
    (hrole : after.map User.role = table.map User.role) (bytes : Bytes) :
    (table.filter fun u => u.role = .admin).map (fun u => (u.socketFd, bytes)) =
      ((before.zip after).filter fun p => p.2.role = .admin).map fun p => (p.1.socketFd, bytes) := by
  induction table generalizing before after with
  | nil =>
    obtain rfl : after = [] := List.map_eq_nil_iff.1 hrole
    simp
  | cons v table ih =>
    cases before with
    | nil => cases hsocket
    | cons b before =>
      cases after with
      | nil => cases hrole
      | cons a after =>
        simp only [List.map_cons, List.cons.injEq] at hsocket hrole
        have htail := ih hsocket.2 hrole.2
        rw [List.zip_cons_cons, List.filter_cons, List.filter_cons, hrole.1]
        split
        · rw [List.map_cons, List.map_cons, htail, hsocket.1]
        · exact htail

/-- The roles after the event are those that the notices are read off. -/
private theorem Departs.roles (h : Departs s e t i u) : ∃ table, NoticeTable s.world.mem.users i u table ∧
    t.world.mem.users.map User.role = table.map User.role ∧
    t.world.mem.outbox = (table.filter fun u => u.role = .admin).map fun u =>
      (u.socketFd, wireOf MsgType.pmMessage serverName none) := by
  obtain ⟨conn, -, hrec, -⟩ := h.asks
  obtain ⟨table, htable, hmem | hmem⟩ := h.memory
  · rw [hmem]
    exact ⟨table, htable, rfl, rfl⟩
  · obtain ⟨v, hv, -⟩ := (htable.roles hrec h.inSession).get i u hrec.get
    have hexit : Table.Pointwise (fun _ v v' => v'.role = v.role) table (table.modify i User.exit) :=
      .modify hv rfl fun _ _ _ _ => rfl
    rw [hmem]
    exact ⟨table, htable, hexit.map_eq fun _ _ _ hr => hr, rfl⟩

/-- The notices of a user who leaves go to exactly the promoted users if and only if there was no administrator, of any
session, but that user; nor that user, when its session is the reserved one, which it does not leave. -/
theorem promotion_notices (h : Departs s e t i u) :
    NoticesPromoted s t ↔ ∀ k v, s.world.mem.users[k]? = some v → v.role = .admin →
      k = i ∧ u.sessionId ≠ notInSession := by
  obtain ⟨conn, -, hrec, -⟩ := h.asks
  obtain ⟨table, htable, hafter, houtbox⟩ := h.roles
  have hroles := htable.roles hrec h.inSession
  have hsocket : table.map User.socketFd = s.world.mem.users.map User.socketFd := hroles.map_eq fun _ _ _ hr => hr.1
  -- the role after the event of the record at `k`
  have hrole : ∀ (k : Nat) (v' : User), t.world.mem.users[k]? = some v' → ∃ w, table[k]? = some w ∧ w.role = v'.role := by
    intro k v' hv'
    have hget := congrArg (·[k]?) hafter
    simp only [List.getElem?_map, hv', Option.map_some] at hget
    obtain ⟨w, hw, hsame⟩ := Option.map_eq_some_iff.1 hget.symm
    exact ⟨w, hw, hsame⟩
  have hlength : t.world.mem.users.length = s.world.mem.users.length := by
    have := congrArg List.length hafter
    rw [List.length_map, List.length_map] at this
    exact this.trans hroles.length_eq
  rw [NoticesPromoted, houtbox, notices_eq_zip hsocket hafter, promotions, Table.map_filter_eq_iff]
  constructor
  · intro hall k v hv hadmin
    -- one who was an administrator and stays one is notified without a promotion
    by_contra hother
    obtain ⟨w, hw, -, hw'⟩ := hroles.get k v hv
    rw [if_neg hother] at hw'
    have hlt : k < t.world.mem.users.length := hlength ▸ (List.getElem?_eq_some_iff.1 hv).1
    have hv' := List.getElem?_eq_getElem hlt
    obtain ⟨w', hw'', hsame⟩ := hrole k _ hv'
    obtain rfl : w = w' := Option.some.inj (hw.symm.trans hw'')
    have hpair : (v, t.world.mem.users[k]) ∈ s.world.mem.users.zip t.world.mem.users :=
      List.mem_of_getElem? (List.getElem?_zip_eq_some.2 ⟨hv, hv'⟩)
    have huser := hall _ hpair (decide_eq_true (hsame.symm.trans (hw' hadmin)))
    rw [decide_eq_true_eq] at huser
    rw [huser] at hadmin
    cases hadmin
  -- the only administrator there was has lost the role, so those of afterwards are promoted
  · rintro honly ⟨v, v'⟩ hmem hadmin
    obtain ⟨k, hk⟩ := List.mem_iff_getElem?.1 hmem
    obtain ⟨hv, hv'⟩ := List.getElem?_zip_eq_some.1 hk
    simp only [decide_eq_true_eq] at hv hv' hadmin ⊢
    cases hv0 : v.role with
    | user => rfl
    | admin =>
      obtain ⟨w, hw, -, hw'⟩ := hroles.get k v hv
      rw [if_pos (honly k v hv hv0)] at hw'
      obtain ⟨w', hw'', hsame⟩ := hrole k v' hv'
      obtain rfl : w = w' := Option.some.inj (hw.symm.trans hw'')
      rw [hadmin, hw'] at hsame
      cases hsame

end Departs

/-- A served `LEAVE_SESS` of a user who is in a session. -/
private theorem departs_leave {s t : ServerState} {socketFd i : Nat} {chunk : Bytes} {conn conn' : Conn} {u : User}
    (hnext : s.next (.recv socketFd chunk) = some t) (hconn : s.conns socketFd = .running conn)
    (hrec : Record s.world.mem.users conn.source.bytes i u) (hin : u.inSession = .online)
    (htype : (decode (recvBuffer chunk)).map (fun p => p.1.type) = some MsgType.leaveSess)
    (hended : t.conns socketFd = .running conn') : Departs s (.recv socketFd chunk) t i u := by
  obtain ⟨p, hdec, hleave⟩ := Option.map_eq_some_iff.1 htype
  refine ⟨hnext, ⟨conn, hconn, hrec, p, hdec, Or.inl hleave⟩, hin, ?_⟩
  show t.conns socketFd ≠ .stuck
  rw [hended]
  simp

/-- `bob` leaves the session of `ann` and him, and `ann` is promoted and told so. -/
theorem promotion_notices_ann : ∃ s t, afterEvents bobAndAnn = some s ∧ s.next (.recv 3 (ascii "7:0:bob:")) = some t ∧
    NoticesPromoted s t ∧ t.world.mem.outbox.map Prod.fst = [4] := by
  obtain ⟨s, t, hs, hnext, ht⟩ := afterEvents_last bobAndAnn (.recv 3 (ascii "7:0:bob:")) (by decide)
  let bobConn : Conn := ⟨⟨ascii "bob", by decide, by decide⟩, .online⟩
  have husers : s.world.mem.users.map (fun u => (u.role, u.inSession, u.sessionId.bytes)) =
      [(.admin, .online, ascii "s"), (.user, .online, ascii "s")] :=
    of_afterEvents (f := fun s => s.world.mem.users.map fun u => (u.role, u.inSession, u.sessionId.bytes)) hs (by decide)
  obtain ⟨u, v, hu⟩ := List.length_eq_two.1 (by simpa using congrArg List.length husers)
  have hsearch : databaseSearchUser s.world.mem.users (ascii "bob") = some 0 :=
    of_afterEvents (f := fun s => databaseSearchUser s.world.mem.users (ascii "bob")) hs (by decide)
  have hrec : Record s.world.mem.users bobConn.source.bytes 0 u := ⟨hsearch, by rw [hu]; rfl⟩
  simp only [hu, List.map_cons, List.map_nil, List.cons.injEq, Prod.mk.injEq, and_true] at husers
  obtain ⟨⟨-, hin, hid⟩, hrole, -⟩ := husers
  have hdeparts : Departs s _ t 0 u := departs_leave hnext
    (of_afterEvents (f := fun s => s.conns 3) (a := .running bobConn) hs (by decide)) hrec hin (by decide)
    (of_afterEvents (f := fun s => s.conns 3) (a := .running bobConn) ht (by decide))
  have honly : ∀ k v', s.world.mem.users[k]? = some v' → v'.role = .admin → k = 0 ∧ u.sessionId ≠ notInSession := by
    intro k v' hv' hadmin
    have hproper : u.sessionId ≠ notInSession := by
      intro h
      rw [h] at hid
      exact absurd hid (by decide)
    rw [hu] at hv'
    match k, hv' with
    | 0, _ => exact ⟨rfl, hproper⟩
    | 1, hv' =>
      obtain rfl : v = v' := Option.some.inj hv'
      cases hrole.symm.trans hadmin
  exact ⟨s, t, hs, hnext, (promotion_notices hdeparts).2 honly,
    of_afterEvents (f := fun t => t.world.mem.outbox.map Prod.fst) ht (by decide)⟩

/-- `ann` leaves the session `c`, where she was alone; `bob`, the administrator of `a`, is told that he is promoted. -/
theorem promotion_notices_fails : ¬ ∀ s e t i u, Reachable server s → Departs s e t i u → NoticesPromoted s t := by
  intro h
  let events : List Event := bobInA ++ [.accept 4 serverName, .recv 4 (ascii "13:1:ann:x"), .recv 4 (ascii "8:1:ann:c")]
  obtain ⟨s, t, hs, hnext, ht⟩ := afterEvents_last events (.recv 4 (ascii "7:0:ann:")) (by decide)
  let annConn : Conn := ⟨⟨ascii "ann", by decide, by decide⟩, .online⟩
  have hsearch : databaseSearchUser s.world.mem.users (ascii "ann") = some 1 :=
    of_afterEvents (f := fun s => databaseSearchUser s.world.mem.users (ascii "ann")) hs (by decide)
  have hin : (s.world.mem.users[1]?).map User.inSession = some .online :=
    of_afterEvents (f := fun s => (s.world.mem.users[1]?).map User.inSession) hs (by decide)
  obtain ⟨u, hu, hon⟩ := Option.map_eq_some_iff.1 hin
  have hdeparts : Departs s _ t 1 u := departs_leave hnext
    (of_afterEvents (f := fun s => s.conns 4) (a := .running annConn) hs (by decide)) ⟨hsearch, hu⟩ hon (by decide)
    (of_afterEvents (f := fun s => s.conns 4) (a := .running annConn) ht (by decide))
  have hnotices := congrArg List.length (h s _ t 1 u (reachable_afterEvents hs) hdeparts)
  have hsent : t.world.mem.outbox.length = 1 := of_afterEvents (f := fun t => t.world.mem.outbox.length) ht (by decide)
  have hadmins : s.world.mem.users.all (fun u => u.role = .admin) = true :=
    of_afterEvents (f := fun s => s.world.mem.users.all fun u => u.role = .admin) hs (by decide)
  have hnobody : promotions s.world.mem.users t.world.mem.users = [] := by
    apply List.filter_eq_nil_iff.2
    rintro ⟨v, v'⟩ hmem hpromoted
    have hadmin := List.all_eq_true.1 hadmins v (List.of_mem_zip hmem).1
    simp only [Bool.and_eq_true, decide_eq_true_eq] at hpromoted hadmin
    rw [hpromoted.1] at hadmin
    cases hadmin
  rw [hsent, hnobody] at hnotices
  cases hnotices

end Conferencing
