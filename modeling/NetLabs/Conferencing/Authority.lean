import NetLabs.Conferencing.Runs

/-!
# Who may kick and promote

The server checks five things about the target of a `KICK` or `PROMOTE` and nothing about the sender's role.  A request
that passes them changes the table, so authority is enforced exactly when the sender happens to be an administrator,
or nothing is changed: one of the checks refuses, the table is locked for ever, or a user promotes itself.
-/

namespace Conferencing

open CText LockProg Transition

/-- The user with record `own` has authority over the user named `target`: it is an administrator, in a session, and
the target is in the same session. -/
def Authorised (users : List User) (own : User) (target : Bytes) : Prop :=
  own.role = .admin ∧ own.inSession = .online ∧
    ∃ j t, Record users target j t ∧ t.inSession = .online ∧ t.sessionId = own.sessionId

/-- The handler leaves a table that differs from `users`, whether it returns or waits. -/
def ChangesTable {α : Type} (o : Outcome Mutex Memory α) (users : List User) : Prop :=
  match o with
  | .ret _ w => w.mem.users ≠ users
  | .blocked w => w.mem.users ≠ users
  | .fault => False

instance {α : Type} (o : Outcome Mutex Memory α) (users : List User) : Decidable (ChangesTable o users) :=
  match o with
  | .ret _ w => inferInstanceAs (Decidable (w.mem.users ≠ users))
  | .blocked w => inferInstanceAs (Decidable (w.mem.users ≠ users))
  | .fault => inferInstanceAs (Decidable False)

/-- The sender of a request that is not refused has authority when it is an administrator. -/
private theorem authorised_iff {users : List User} {own : User} {target : Bytes} (hown : own.Consistent)
    (href : refusal users target own = none) : Authorised users own target ↔ own.role = .admin := by
  constructor
  · exact fun h => h.1
  · intro hrole
    obtain ⟨j, t, ht, -, hin, hid, -⟩ := refusal_eq_none href
    exact ⟨hrole, hown.admin hrole, j, t, ht, hin, hid⟩

private theorem kicked_ne {m : Memory} {i j : Nat} {u t : User} {target : Bytes} (ht : Record m.users target j t)
    (hin : t.inSession = .online) (sender : CStr maxName) : (kicked m i u j t sender).users ≠ m.users := by
  intro h
  have hget : (m.users.modify j User.kick)[j]? = some t.kick := by
    rw [List.getElem?_modify_eq, ht.get]
    rfl
  have heq : (kicked m i u j t sender).users = m.users.modify j User.kick := rfl
  rw [← heq, h, ht.get, Option.some.injEq] at hget
  have : t.inSession = .offline := by rw [hget]; rfl
  rw [hin] at this
  cases this

/-- A promotion changes the table unless the user promotes itself. -/
private theorem promoted_eq_iff {m : Memory} {i j : Nat} {u t : User} {name target : Bytes}
    (hrec : Record m.users name i u) (ht : Record m.users target j t) (hrole : t.role = .user)
    (sender : CStr maxName) : (promoted m i u j t sender).users = m.users ↔ i = j := by
  have heq : (promoted m i u j t sender).users =
      (m.users.modify j (User.setRole .admin)).modify i (User.setRole .user) := rfl
  constructor
  · intro h
    by_contra hij
    have hget : ((m.users.modify j (User.setRole .admin)).modify i (User.setRole .user))[j]? =
        some (t.setRole .admin) := by
      rw [List.getElem?_modify_ne _ _ hij, List.getElem?_modify_eq, ht.get]
      rfl
    rw [← heq, h, ht.get, Option.some.injEq] at hget
    have : t.role = .admin := by rw [hget]; rfl
    rw [hrole] at this
    cases this
  · rintro rfl
    have hut : u = t := Option.some.inj (hrec.get.symm.trans ht.get)
    subst hut
    rw [heq]
    apply List.ext_getElem?
    intro k
    by_cases hk : i = k
    · subst hk
      rw [List.getElem?_modify_eq, List.getElem?_modify_eq, hrec.get]
      simp [User.setRole, ← hrole]
    · rw [List.getElem?_modify_ne _ _ hk, List.getElem?_modify_ne _ _ hk]

section Requests

variable {w : World Mutex Memory} {sender : CStr maxName} {i : Nat} {u : User}

private theorem kick_authority (hrec : Record w.mem.users sender.bytes i u) (hown : u.Consistent) (target : Bytes) :
    (ChangesTable (serverSideKickUser sender target w) w.mem.users → Authorised w.mem.users u target) ↔
      w.held .userList = true ∨ refusal w.mem.users target u ≠ none ∨ u.role = .admin := by
  cases hul : w.held .userList with
  | true =>
    have hrun : serverSideKickUser sender target w = .blocked w := by
      rw [serverSideKickUser, run_withTarget (by decide) hrec, hul]
      rfl
    simp [hrun, ChangesTable]
  | false =>
    cases href : refusal w.mem.users target u with
    | some code =>
      have hrun : serverSideKickUser sender target w = .ret () (w.setMem (w.mem.sent u.socketFd
          (wireOf MsgType.kiNak sender (some (sessionResponseMessage code))))) := by
        rw [serverSideKickUser, run_withTarget (by decide) hrec, hul, href]
        rfl
      simp [hrun, ChangesTable]
    | none =>
      obtain ⟨j, t, ht, -, hin, -, -⟩ := refusal_eq_none href
      have hrun := run_serverSideKickUser hrec ht
      rw [hul, href] at hrun
      have hchanges : ChangesTable (serverSideKickUser sender target w) w.mem.users := by
        rw [hrun]
        exact kicked_ne ht hin sender
      simp [hchanges, authorised_iff hown href]

private theorem promote_authority (hrec : Record w.mem.users sender.bytes i u) (hown : u.Consistent) (target : Bytes) :
    (ChangesTable (serverSidePromoteUser sender target w) w.mem.users → Authorised w.mem.users u target) ↔
      w.held .userList = true ∨ refusal w.mem.users target u ≠ none ∨ u.role = .admin ∨
        Record w.mem.users target i u := by
  cases hul : w.held .userList with
  | true =>
    have hrun : serverSidePromoteUser sender target w = .blocked w := by
      rw [serverSidePromoteUser, run_withTarget (by decide) hrec, hul]
      rfl
    simp [hrun, ChangesTable]
  | false =>
    cases href : refusal w.mem.users target u with
    | some code =>
      have hrun : serverSidePromoteUser sender target w = .ret () (w.setMem (w.mem.sent u.socketFd
          (wireOf MsgType.pmNak sender (some (sessionResponseMessage code))))) := by
        rw [serverSidePromoteUser, run_withTarget (by decide) hrec, hul, href]
        rfl
      simp [hrun, ChangesTable]
    | none =>
      obtain ⟨j, t, ht, -, -, -, hrole⟩ := refusal_eq_none href
      have hrun := run_serverSidePromoteUser hrec ht
      rw [hul, href] at hrun
      have hchanges : ChangesTable (serverSidePromoteUser sender target w) w.mem.users ↔ i ≠ j := by
        rw [hrun]
        exact not_congr (promoted_eq_iff hrec ht hrole sender)
      have hself : Record w.mem.users target i u ↔ i = j := by
        constructor
        · exact fun h => (h.unique ht).1
        · rintro rfl
          have hut : u = t := Option.some.inj (hrec.get.symm.trans ht.get)
          subst hut
          exact ht
      rw [hchanges, authorised_iff hown href, hself]
      simp only [Bool.false_eq_true, ne_eq, not_true_eq_false, false_or]
      tauto

end Requests

/-- The request has authority, needs none, or is stopped: the table is locked for ever, one of the five checks refuses,
the sender is an administrator, or it promotes itself. -/
def AuthorityHolds (s : ServerState) (received : Message) (i : Nat) (own : User) : Prop :=
  s.world.held .userList = true ∨ refusal s.world.mem.users (cstr received.data.bytes) own ≠ none ∨
    own.role = .admin ∨
    received.type = MsgType.promote ∧ Record s.world.mem.users (cstr received.data.bytes) i own

private theorem changesTable_bind_pure {α β : Type} (o : Outcome Mutex Memory α) (b : β) (users : List User) :
    ChangesTable (o.bind fun _ => pure b) users ↔ ChangesTable o users := by
  cases o <;> rfl

/-- Authority of `KICK` and `PROMOTE`.  A connection that is logged in has a record; and when it sends one of the two
requests, "if a record changes, the sender was an administrator in the target's session" holds exactly under
`AuthorityHolds`. -/
theorem authority {s : ServerState} (hr : Reachable server s) {socketFd : Nat} {conn : Conn}
    (hconn : s.conns socketFd = .running conn) (hon : conn.serverConnectionStatus = .online) :
    ∃ i own, Record s.world.mem.users conn.source.bytes i own ∧
      ∀ chunk received claimed, decode (recvBuffer chunk) = some (received, claimed) →
        (received.type = MsgType.kick ∨ received.type = MsgType.promote) →
        ((ChangesTable (serve socketFd conn chunk s.clear) s.world.mem.users →
          Authorised s.world.mem.users own (cstr received.data.bytes)) ↔ AuthorityHolds s received i own) := by
  obtain ⟨⟨i, own, hrec⟩, -⟩ := record_of_reachable hr hconn hon
  have hown := consistent_of_reachable hr own hrec.mem
  have hrec' : Record s.clear.mem.users conn.source.bytes i own := hrec
  refine ⟨i, own, hrec, fun chunk received claimed hdec htype => ?_⟩
  rcases htype with hkick | hpromote
  · have hne : ¬ received.type = MsgType.promote := by rw [hkick]; decide
    rw [serve_kick hdec hkick, changesTable_bind_pure]
    refine (kick_authority hrec' hown _).trans ?_
    simp only [AuthorityHolds, hne, false_and, or_false]
    exact Iff.rfl
  · rw [serve_promote hdec hpromote, changesTable_bind_pure]
    refine (promote_authority hrec' hown _).trans ?_
    simp only [AuthorityHolds, hpromote, true_and]
    exact Iff.rfl

/-- `bob`, the administrator of the session of `ann` and him, kicks `ann`. -/
theorem authority_bob : ∃ s, afterEvents bobAndAnn = some s ∧
    ∃ i own, Record s.world.mem.users (ascii "bob") i own ∧
      (∀ chunk received claimed, decode (recvBuffer chunk) = some (received, claimed) →
        (received.type = MsgType.kick ∨ received.type = MsgType.promote) →
        ((ChangesTable (serve 3 ⟨⟨ascii "bob", by decide, by decide⟩, .online⟩ chunk s.clear) s.world.mem.users →
          Authorised s.world.mem.users own (cstr received.data.bytes)) ↔ AuthorityHolds s received i own)) ∧
      ChangesTable (serve 3 ⟨⟨ascii "bob", by decide, by decide⟩, .online⟩ (ascii "16:3:bob:ann") s.clear)
        s.world.mem.users ∧ Authorised s.world.mem.users own (ascii "ann") := by
  let bob : Conn := ⟨⟨ascii "bob", by decide, by decide⟩, .online⟩
  obtain ⟨s, hs⟩ : ∃ s, afterEvents bobAndAnn = some s := Option.isSome_iff_exists.1 (by decide)
  have hconn : s.conns 3 = .running bob := of_afterEvents (f := fun s => s.conns 3) hs (by decide)
  obtain ⟨i, own, hrec, hiff⟩ := authority (reachable_afterEvents hs) hconn rfl
  have hrole : (ownRecord s.world.mem.users bob.source.bytes).map User.role = some .admin :=
    of_afterEvents (f := fun s => (ownRecord s.world.mem.users bob.source.bytes).map User.role) hs (by decide)
  have hadmin : own.role = .admin := by
    rw [ownRecord_eq hrec] at hrole
    exact Option.some.inj hrole
  have hkick : (decode (recvBuffer (ascii "16:3:bob:ann"))).map (fun p => (p.1.type, cstr p.1.data.bytes)) =
      some (MsgType.kick, ascii "ann") := by decide
  obtain ⟨p, hdec, hp⟩ := Option.map_eq_some_iff.1 hkick
  obtain ⟨htype, htarget⟩ := Prod.mk.inj hp
  have hchanges : decide (ChangesTable (serve 3 bob (ascii "16:3:bob:ann") s.clear) s.world.mem.users) = true :=
    of_afterEvents (f := fun s => decide (ChangesTable (serve 3 bob (ascii "16:3:bob:ann") s.clear) s.world.mem.users))
      hs (by decide)
  have hauth := (hiff _ p.1 p.2 hdec (Or.inl htype)).2 (Or.inr (Or.inr (Or.inl hadmin))) (of_decide_eq_true hchanges)
  rw [htarget] at hauth
  exact ⟨s, hs, i, own, hrec, hiff, of_decide_eq_true hchanges, hauth⟩

/-- `ann` creates a session, `bob` and `eve` join it, and `ann` sends `PROMOTE bob` and `KICK eve` without waiting: the
kick is granted to a sender whose role is `USER`. -/
theorem authority_fails : ¬ ∀ s, Reachable server s → ∀ socketFd conn, s.conns socketFd = .running conn →
    conn.serverConnectionStatus = .online → ∀ i own, Record s.world.mem.users conn.source.bytes i own →
    ∀ chunk received claimed, decode (recvBuffer chunk) = some (received, claimed) →
      (received.type = MsgType.kick ∨ received.type = MsgType.promote) →
      ChangesTable (serve socketFd conn chunk s.clear) s.world.mem.users →
      Authorised s.world.mem.users own (cstr received.data.bytes) := by
  intro h
  let ann : CStr maxName := ⟨ascii "ann", by decide, by decide⟩
  let events : List Event := [.accept 3 ann, .accept 4 ann, .accept 5 ann, .recv 3 (ascii "13:1:ann:x"),
    .recv 4 (ascii "13:1:bob:x"), .recv 5 (ascii "13:1:eve:x"), .recv 3 (ascii "8:1:ann:s"),
    .recv 4 (ascii "4:1:bob:s"), .recv 5 (ascii "4:1:eve:s"), .recv 3 (ascii "20:3:ann:bob")]
  obtain ⟨s, hs⟩ : ∃ s, afterEvents events = some s := Option.isSome_iff_exists.1 (by decide)
  have hconn : s.conns 3 = .running ⟨ann, .online⟩ := of_afterEvents (f := fun s => s.conns 3) hs (by decide)
  have hfound : databaseSearchUser s.world.mem.users ann.bytes = some 0 :=
    of_afterEvents (f := fun s => databaseSearchUser s.world.mem.users ann.bytes) hs (by decide)
  obtain ⟨own, hrec⟩ := Table.exists_at hfound
  have hrole : (s.world.mem.users[0]?).map User.role = some .user :=
    of_afterEvents (f := fun s => (s.world.mem.users[0]?).map User.role) hs (by decide)
  obtain ⟨p, hp⟩ : ∃ p, decode (recvBuffer (ascii "16:3:ann:eve")) = some p := Option.isSome_iff_exists.1 (by decide)
  have htype : p.1.type = MsgType.kick := by
    have hd : (decode (recvBuffer (ascii "16:3:ann:eve"))).map (fun p => p.1.type) = some MsgType.kick := by decide
    rw [hp] at hd
    exact Option.some.inj hd
  have hchanges : decide (ChangesTable (serve 3 ⟨ann, .online⟩ (ascii "16:3:ann:eve") s.clear) s.world.mem.users) = true :=
    of_afterEvents (f := fun s => decide (ChangesTable (serve 3 ⟨ann, .online⟩ (ascii "16:3:ann:eve") s.clear)
      s.world.mem.users)) hs (by decide)
  have hauth := h s (reachable_afterEvents hs) 3 _ hconn rfl 0 own hrec _ p.1 p.2 hp (Or.inl htype)
    (of_decide_eq_true hchanges)
  rw [hrec.get, Option.map_some, hauth.1] at hrole
  cases hrole

end Conferencing
