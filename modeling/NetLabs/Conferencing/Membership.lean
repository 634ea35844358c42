import NetLabs.Conferencing.Admin
import NetLabs.Conferencing.Logins

/-!
# Membership

Whether a user is in a session is stored twice, as a flag and as a text that is reserved when there is no session.  The
two agree, and a user who is offline is in no session, in every run in which no request takes the reserved text as the
name of a session (`record_consistency`).  Then the count of a session, the list of its users and the receivers of its
messages are the same users (`membership_views`).

No session ever has more than six users (`session_capacity`).
-/

namespace Conferencing

open CText LockProg Transition

/-! ### Sound records -/

/-- The flag, the text, the role and the status of a record agree. -/
structure User.Sound (u : User) : Prop where
  flag : u.inSession = .online ↔ u.sessionId ≠ notInSession
  admin : u.role = .admin → u.inSession = .online
  offline : u.status = .offline → u.inSession = .offline

/-- A `JOIN` or `NEW_SESS` of the user with record `own` asks for the reserved text, and nothing refuses it. -/
def TakesReserved (s : ServerState) (own : User) (received : Message) : Prop :=
  s.world.held .userList = false ∧ s.world.held .rw = false ∧ cstr received.data.bytes = notInSession.bytes ∧
    (received.type = MsgType.join ∧ joinRefusal s.world.mem.users own notInSession.bytes = none ∨
      received.type = MsgType.newSess ∧ countInSession s.world.mem.users notInSession.bytes = 0)

instance (s : ServerState) (own : User) (received : Message) : Decidable (TakesReserved s own received) := by
  unfold TakesReserved
  infer_instance

/-- The event does not take the reserved text as the name of a session. -/
def ReservedFree (s : ServerState) : Event → Prop
  | .recv socketFd chunk => ∀ conn ∈ (s.conns socketFd).conn?, ∀ p ∈ decode (recvBuffer chunk),
      ∀ own ∈ ownRecord s.world.mem.users conn.source.bytes, ¬ TakesReserved s own p.1
  | _ => True

instance (s : ServerState) : DecidablePred (ReservedFree s)
  | .accept _ _ => inferInstanceAs (Decidable True)
  | .recv socketFd chunk => inferInstanceAs (Decidable (∀ conn ∈ (s.conns socketFd).conn?,
      ∀ p ∈ decode (recvBuffer chunk), ∀ own ∈ ownRecord s.world.mem.users conn.source.bytes,
        ¬ TakesReserved s own p.1))
  | .disconnect _ => inferInstanceAs (Decidable True)

section Sound

variable {users : List User} {name : Bytes} {k : Nat} {u u' : User}

/-- The flag says a session only when the text does. -/
def User.Placed (u : User) : Prop := u.inSession = .online → u.sessionId ≠ notInSession

theorem User.Placed.no_session (h : u.Placed) (hid : u.sessionId = notInSession) : u.inSession = .offline := by
  cases hin : u.inSession with
  | offline => rfl
  | online => exact absurd hid (h hin)

theorem placed_of_offline (h : u.inSession = .offline) : u.Placed := by
  intro hin
  cases hin.symm.trans h

theorem Leaves.placed (h : Leaves users name k u u') (hu : u.Placed) : u'.Placed := by
  cases h with
  | same _ => exact hu
  | own _ _ _ => exact placed_of_offline rfl
  | last _ => exact hu

theorem Quits.placed (h : Quits users name k u u') (hu : u.Placed) : u'.Placed := by
  cases h with
  | same _ => exact hu
  | out _ _ => exact hu
  | own _ _ _ => exact placed_of_offline rfl
  | last _ => exact hu

/-- A request that asks for a proper name, or is refused, keeps the flag and the text in agreement. -/
theorem Touched.placed {socketFd : Nat} {conn : Conn} {received : Message} {claimed : CStr maxName}
    (h : Touched users socketFd conn received claimed k u u') (hu : u.Placed)
    (hproper : Record users conn.source.bytes k u → cstr received.data.bytes = notInSession.bytes →
      ¬ (received.type = MsgType.join ∧ joinRefusal users u notInSession.bytes = none ∨
        received.type = MsgType.newSess ∧ countInSession users notInSession.bytes = 0)) : u'.Placed := by
  cases h with
  | exit _ h => exact h.placed hu
  | @create id htype hrec hid hcount =>
    intro _ h
    have hid' : id = notInSession := h
    subst hid'
    exact hproper hrec hid.symm (Or.inr ⟨htype, hcount⟩)
  | @join id htype hrec hid href =>
    intro _ h
    have hid' : id = notInSession := h
    subst hid'
    exact hproper hrec hid.symm (Or.inl ⟨htype, href⟩)
  | leave _ h => exact h.placed hu
  | kick _ _ _ _ => exact placed_of_offline rfl
  | _ => exact hu

/-- A user who is offline is in no session. -/
def User.Absent (u : User) : Prop := u.status = .offline → u.inSession = .offline

theorem Leaves.absent (h : Leaves users name k u u') (hu : u.Absent) : u'.Absent := by
  cases h with
  | same _ => exact hu
  | own _ _ _ => exact fun _ => rfl
  | last _ => exact hu

theorem Quits.absent (h : Quits users name k u u') (hplaced : u.Placed) (hu : u.Absent) : u'.Absent := by
  cases h with
  | same _ => exact hu
  | out _ hout => exact fun _ => hout.elim id hplaced.no_session
  | own _ _ _ => exact fun _ => rfl
  | last _ => exact hu

/-- A request that acts for a user who is online takes nobody who is offline into a session. -/
theorem Touched.absent {socketFd : Nat} {conn : Conn} {received : Message} {claimed : CStr maxName}
    (h : Touched users socketFd conn received claimed k u u') (hplaced : u.Placed) (hu : u.Absent)
    (hon : received.type = MsgType.join ∨ received.type = MsgType.newSess →
      Record users conn.source.bytes k u → u.status = .online) : u'.Absent := by
  cases h with
  | login _ _ _ =>
    intro h
    cases h
  | exit _ h => exact h.absent hplaced hu
  | create htype hrec _ _ =>
    intro hoff
    cases (hon (Or.inr htype) hrec).symm.trans hoff
  | join htype hrec _ _ =>
    intro hoff
    cases (hon (Or.inl htype) hrec).symm.trans hoff
  | leave _ h => exact h.absent hu
  | kick _ _ _ _ => exact fun _ => rfl
  | _ => exact hu

end Sound

/-! ### When a request for a session is granted -/

section Granted

variable {socketFd : Nat} {conn : Conn} {chunk : Bytes} {received : Message} {claimed : CStr maxName}
  {w w' : World Mutex Memory} {r : Option Conn} {i : Nat} {u : User}

/-- A request for a session that returns has found both mutexes free. -/
private theorem free_of_serve (hdec : decode (recvBuffer chunk) = some (received, claimed))
    (htype : received.type = MsgType.join ∨ received.type = MsgType.newSess)
    (hrec : Record w.mem.users conn.source.bytes i u) (hrun : serve socketFd conn chunk w = .ret r w') :
    w.held .userList = false ∧ w.held .rw = false := by
  cases hdata : received.data.text? with
  | none =>
    rw [serve_unclosed hdec htype hdata] at hrun
    cases hrun
  | some sessionId =>
    rcases htype with htype | htype
    · rw [serve_join hdec htype hdata, run_serverSideSessionJoin hrec] at hrun
      cases hul : w.held .userList with
      | true => simp [hul] at hrun
      | false =>
        cases hrw : w.held .rw with
        | true => simp [hul, hrw] at hrun
        | false => exact ⟨rfl, rfl⟩
    · rw [serve_create hdec htype hdata, run_serverSideSessionCreate hrec] at hrun
      cases hul : w.held .userList with
      | true => simp [hul] at hrun
      | false =>
        cases hrw : w.held .rw with
        | true => simp [hul, hrw] at hrun
        | false => exact ⟨rfl, rfl⟩

variable (socketFd) in
/-- A request that takes the reserved text is undefined, or leaves a record that says both. -/
private theorem serve_takes {s : ServerState} (hdec : decode (recvBuffer chunk) = some (received, claimed))
    (hrec : Record s.world.mem.users conn.source.bytes i u) (htakes : TakesReserved s u received) :
    serve socketFd conn chunk s.clear = .fault ∨
      ∃ r w', serve socketFd conn chunk s.clear = .ret r w' ∧ ∃ v ∈ w'.mem.users, ¬ v.Sound := by
  obtain ⟨hul, hrw, htext, hgrant⟩ := htakes
  have hrec' : Record s.clear.mem.users conn.source.bytes i u := hrec
  have hul' : s.clear.held .userList = false := hul
  have hrw' : s.clear.held .rw = false := hrw
  have hunsound : ∀ f : User → User, (f u).inSession = .online → (f u).sessionId = notInSession →
      ∃ v ∈ s.world.mem.users.modify i f, ¬ v.Sound := by
    intro f hin hid
    have hget : (s.world.mem.users.modify i f)[i]? = some (f u) := by
      rw [List.getElem?_modify_eq, hrec.get]
      rfl
    exact ⟨f u, List.mem_of_getElem? hget, fun h => h.flag.1 hin hid⟩
  cases hdata : received.data.text? with
  | none => exact Or.inl (serve_unclosed hdec (hgrant.imp And.left And.left) hdata)
  | some sessionId =>
    right
    have hbytes : sessionId.bytes = notInSession.bytes := (CArray.cstr_of_text? hdata).symm.trans htext
    have hcopy : sessionId.copy? maxSessionLength = some notInSession := CStr.ofBytes?_eq_some.2 hbytes.symm
    rcases hgrant with ⟨htype, href⟩ | ⟨htype, hcount⟩
    · have href' : joinRefusal s.clear.mem.users u sessionId.bytes = none := hbytes ▸ href
      rw [serve_join hdec htype hdata, run_serverSideSessionJoin hrec', hul', hrw']
      simp only [joined, href', hcopy, Bool.false_eq_true, ↓reduceIte, Option.map_some, run_finish_some, bind_ret,
        run_pure]
      exact ⟨_, _, rfl, hunsound (User.join notInSession) rfl rfl⟩
    · have hcount' : countInSession s.clear.mem.users sessionId.bytes = 0 := hbytes ▸ hcount
      rw [serve_create hdec htype hdata, run_serverSideSessionCreate hrec', hul', hrw']
      simp only [created, hcount', hcopy, Bool.false_eq_true, ↓reduceIte, Option.map_some, run_finish_some, bind_ret,
        run_pure]
      exact ⟨_, _, rfl, hunsound (User.create notInSession) rfl rfl⟩

end Granted

/-! ### Record consistency -/

theorem Slot.running_of_conn? {slot : Slot} {conn conn' : Conn} (h : conn ∈ slot.conn?) (h' : slot = .running conn') :
    conn = conn' := by
  rw [h'] at h
  exact (Option.some.inj h).symm

theorem record_of_ownRecord {users : List User} {name : Bytes} {u : User} (h : u ∈ ownRecord users name) :
    ∃ i, Record users name i u := by
  obtain ⟨i, hfound, hget⟩ := Option.bind_eq_some_iff.1 h
  exact ⟨i, hfound, hget⟩

/-- Every record of the table is sound. -/
def RecordsSound (s : ServerState) : Prop := ∀ u ∈ s.world.mem.users, u.Sound

private theorem placed_turn {s t : ServerState} {e : Event} (hturn : Turn s e t) (hfree : ReservedFree s e)
    (h : ∀ u ∈ s.world.mem.users, u.Placed) : ∀ u ∈ t.world.mem.users, u.Placed := by
  refine hturn.forall_users h (fun _ _ _ _ _ _ _ _ => placed_of_offline rfl) ?_ fun _ _ _ _ _ hquit hu => hquit.placed hu
  rintro socketFd chunk conn received claimed r w k u u' rfl hconn hdec hrun - htouch hu
  apply htouch.placed hu
  intro hrec htext hgrant
  have hmem : conn ∈ (s.conns socketFd).conn? := by rw [hconn]; rfl
  obtain ⟨hul, hrw⟩ := free_of_serve (w := s.clear) hdec (hgrant.imp And.left And.left) hrec hrun
  exact hfree conn hmem _ hdec u (ownRecord_eq hrec) ⟨hul, hrw, htext, hgrant⟩

theorem placed_of_reachable {s : ServerState} (hr : Reachable (server.when ReservedFree) s) :
    ∀ u ∈ s.world.mem.users, u.Placed := by
  induction hr with
  | init h =>
    obtain ⟨file, users, hload, rfl⟩ := h
    exact hload.forall_users fun _ _ => placed_of_offline rfl
  | step _ hst ih => exact placed_turn (ServerState.turn hst.2) hst.1 ih

private theorem absent_turn {s t : ServerState} {e : Event} (hturn : Turn s e t) (howned : Owned s)
    (hof : OfLoggedIn s e)
    (hplaced : ∀ u ∈ s.world.mem.users, u.Placed) (h : ∀ u ∈ s.world.mem.users, u.Absent) :
    ∀ u ∈ t.world.mem.users, u.Absent := by
  refine hturn.forall_users h (fun _ _ _ _ _ _ _ _ _ => rfl) ?_ fun _ _ _ _ hk hquit hu =>
    hquit.absent (hplaced _ (List.mem_of_getElem? hk)) hu
  rintro socketFd chunk conn received claimed r w k u u' rfl hconn hdec - hk htouch hu
  apply htouch.absent (hplaced u (List.mem_of_getElem? hk)) hu
  intro htype hrec
  have hmem : conn ∈ (s.conns socketFd).conn? := by rw [hconn]; rfl
  have hon : conn.serverConnectionStatus = .online := by
    rcases hof conn hmem _ hdec with hon | hlogin | hcreate
    · exact hon
    · rcases htype with htype | htype <;> exact absurd (htype.symm.trans hlogin) (by decide)
    · rcases htype with htype | htype <;> exact absurd (htype.symm.trans hcreate) (by decide)
  obtain ⟨i, own, hown, hstatus⟩ := howned.online _ _ hconn hon
  rw [(hrec.unique hown).2, hstatus]

theorem absent_of_reachable {s : ServerState}
    (hr : Reachable (server.when fun s e => OfLoggedIn s e ∧ ReservedFree s e) s) :
    ∀ u ∈ s.world.mem.users, u.Absent := by
  induction hr with
  | init h =>
    obtain ⟨file, users, hload, rfl⟩ := h
    exact hload.forall_users fun _ _ _ => rfl
  | step hr hst ih =>
    exact absent_turn (ServerState.turn hst.2) (owned_of_reachable (hr.when_mono fun _ _ _ h => h.1)) hst.1.1
      (placed_of_reachable (hr.when_mono fun _ _ _ h => h.2)) ih

theorem sound_of_reachable {s : ServerState}
    (hr : Reachable (server.when fun s e => OfLoggedIn s e ∧ ReservedFree s e) s) : RecordsSound s := by
  intro u hu
  have hconsistent := consistent_of_reachable hr.of_when u hu
  have hplaced := placed_of_reachable (hr.when_mono fun _ _ _ h => h.2) u hu
  exact ⟨⟨hplaced, hconsistent.session⟩, hconsistent.admin, absent_of_reachable hr u hu⟩

/-- Record consistency.  In every run of requests of connections that are logged in, as long as no request takes the
reserved text as the name of a session, every record is sound; and the next request of such a connection leaves them
sound exactly when it does not take the reserved text either. -/
theorem record_consistency {s : ServerState}
    (hr : Reachable (server.when fun s e => OfLoggedIn s e ∧ ReservedFree s e) s) :
    RecordsSound s ∧ ∀ e t, OfLoggedIn s e → s.next e = some t → (RecordsSound t ↔ ReservedFree s e) := by
  have hsound := sound_of_reachable hr
  refine ⟨hsound, fun e t hof hnext => ⟨fun ht => ?_, fun hfree => sound_of_reachable (hr.step ⟨⟨hof, hfree⟩, hnext⟩)⟩⟩
  by_contra hfree
  cases e with
  | accept => exact hfree trivial
  | disconnect => exact hfree trivial
  | recv socketFd chunk =>
    simp only [ReservedFree, not_forall, not_not] at hfree
    obtain ⟨conn, hconn, ⟨received, claimed⟩, hdec, own, hown, htakes⟩ := hfree
    obtain ⟨i, hrec⟩ := record_of_ownRecord hown
    have hserve := serve_takes socketFd hdec hrec htakes
    cases ServerState.turn hnext with
    | @served _ _ conn' _ _ r w hconn' _ hrun _ =>
      obtain rfl := Slot.running_of_conn? hconn hconn'
      rcases hserve with hfault | ⟨r', w', hserve, v, hv, hunsound⟩
      · cases hrun.symm.trans hfault
      · cases hrun.symm.trans hserve
        exact hunsound (ht v hv)
    | @recvWaits _ _ conn' w hconn' hrun _ =>
      obtain rfl := Slot.running_of_conn? hconn hconn'
      rcases hserve with hfault | ⟨r', w', hserve, -⟩
      · cases hrun.symm.trans hfault
      · cases hrun.symm.trans hserve

/-- `bob` creates a session, `ann` joins it, and he leaves it. -/
theorem record_consistency_leave : ∃ s, afterEventsWhen (fun s e => OfLoggedIn s e ∧ ReservedFree s e)
      (bobAndAnn ++ [.recv 3 (ascii "7:0:bob:")]) = some s ∧
    s.world.mem.users.map (fun u => (u.inSession, u.role)) = [(.offline, .user), (.online, .admin)] ∧
    RecordsSound s ∧ ∀ e t, OfLoggedIn s e → s.next e = some t → (RecordsSound t ↔ ReservedFree s e) := by
  let run := afterEventsWhen (fun s e => OfLoggedIn s e ∧ ReservedFree s e) (bobAndAnn ++ [.recv 3 (ascii "7:0:bob:")])
  have hrun : run.map (fun s => s.world.mem.users.map fun u => (u.inSession, u.role)) =
      some [(.offline, .user), (.online, .admin)] := by decide
  obtain ⟨s, hs, husers⟩ := Option.map_eq_some_iff.1 hrun
  exact ⟨s, hs, husers, record_consistency (reachable_afterEventsWhen hs)⟩

/-- `bob`, who is in no session, joins the session that is called like no session. -/
theorem record_consistency_fails : ¬ ∀ s, Reachable (server.when OfLoggedIn) s → RecordsSound s := by
  intro h
  let events : List Event := [.accept 3 ⟨ascii "bob", by decide, by decide⟩, .recv 3 (ascii "13:1:bob:x"),
    .recv 3 (ascii "4:14:bob:Not in session")]
  obtain ⟨s, hs⟩ : ∃ s, afterEventsWhen OfLoggedIn events = some s := Option.isSome_iff_exists.1 (by decide)
  have hbob : (afterEventsWhen OfLoggedIn events).map
      (fun s => (s.world.mem.users[0]?).map fun u => (u.inSession, u.sessionId)) =
      some (some (.online, notInSession)) := by decide
  rw [hs, Option.map_some, Option.some.injEq] at hbob
  obtain ⟨u, hu, hflag⟩ := Option.map_eq_some_iff.1 hbob
  rw [Prod.mk.injEq] at hflag
  have hsound := h s (reachable_afterEventsWhen hs) u (List.mem_of_getElem? hu)
  exact hsound.flag.1 hflag.1 hflag.2

/-! ### The capacity of a session -/

section Capacity

variable {users users' : List User} {name id : Bytes} {k : Nat} {u u' : User}

theorem Leaves.session (h : Leaves users name k u u') : u'.sessionId = u.sessionId ∨ u'.sessionId = notInSession := by
  cases h with
  | same _ => exact Or.inl rfl
  | own _ _ _ => exact Or.inr rfl
  | last _ => exact Or.inl rfl

theorem Quits.session (h : Quits users name k u u') : u'.sessionId = u.sessionId ∨ u'.sessionId = notInSession := by
  cases h with
  | same _ => exact Or.inl rfl
  | out _ _ => exact Or.inl rfl
  | own _ _ _ => exact Or.inr rfl
  | last _ => exact Or.inl rfl

/-- Nobody comes into a session when every record keeps its session or leaves it. -/
private theorem countInSession_le {R : Nat → User → User → Prop} (h : Table.Pointwise R users users')
    (hR : ∀ k u u', R k u u' → u'.sessionId = u.sessionId ∨ u'.sessionId = notInSession)
    (hid : id ≠ notInSession.bytes) : countInSession users' id ≤ countInSession users id := by
  apply h.countP_le
  intro k u u' hr hu'
  simp only [decide_eq_true_eq] at hu' ⊢
  rcases hR k u u' hr with hsame | hout
  · rw [← hsame, hu']
  · exact absurd (hu'.symm.trans (congrArg CStr.bytes hout)) hid

private theorem countInSession_modify_le {i : Nat} {f : User → User} (hi : users[i]? = some u)
    (hf : (f u).sessionId = u.sessionId ∨ (f u).sessionId = notInSession) (hid : id ≠ notInSession.bytes) :
    countInSession (users.modify i f) id ≤ countInSession users id :=
  countInSession_le (.modify hi hf fun _ _ _ _ => Or.inl rfl) (fun _ _ _ h => h) hid

/-- One user more, at most, is in a session after a change to one record. -/
private theorem countInSession_modify_le_succ {i : Nat} (hi : users[i]? = some u) (f : User → User) (id : Bytes) :
    countInSession (users.modify i f) id ≤ countInSession users id + 1 := by
  have hcount := countInSession_modify hi f id
  have hle : (if (f u).sessionId.bytes = id then 1 else 0) ≤ 1 := by
    split <;> omega
  omega

/-- Who comes into another session does not come into this one. -/
private theorem countInSession_modify_ne {i : Nat} {f : User → User} (hi : users[i]? = some u)
    (hne : (f u).sessionId.bytes ≠ id) : countInSession (users.modify i f) id ≤ countInSession users id := by
  have hcount := countInSession_modify hi f id
  rw [if_neg hne] at hcount
  omega

theorem room_of_joinRefusal (h : joinRefusal users u id = none) : countInSession users id ≠ maxSessionUser := by
  intro hfull
  unfold joinRefusal at h
  split at h
  · cases h
  · split at h
    · cases h
    · simp at h

theorem Exits.capacity {m m' : Memory} (h : Exits m name m') (hid : id ≠ notInSession.bytes)
    (hcap : countInSession m.users id ≤ maxSessionUser) : countInSession m'.users id ≤ maxSessionUser :=
  Nat.le_trans (countInSession_le h.quits (fun _ _ _ h => h.session) hid) hcap

theorem Served.capacity {socketFd : Nat} {conn : Conn} {received : Message} {claimed : CStr maxName} {m m' : Memory}
    {r : Option Conn} (h : Served socketFd conn received claimed m r m') (hid : id ≠ notInSession.bytes)
    (hcap : countInSession m.users id ≤ maxSessionUser) : countInSession m'.users id ≤ maxSessionUser := by
  cases h with
  | answered _ _ _ => exact hcap
  | echoed _ => exact hcap
  | loggedIn _ hrec _ => exact Nat.le_trans (countInSession_modify_le hrec.get (Or.inl rfl) hid) hcap
  | @registered password _ _ _ _ =>
    have hnew : ¬ notInSession.bytes = id := fun h => hid h.symm
    have hsame : countInSession (m.users ++ [registeredUser claimed password socketFd]) id = countInSession m.users id := by
      simp [countInSession, registeredUser, hnew]
    exact hsame ▸ hcap
  | exited _ hx => exact hx.capacity hid hcap
  | @created i u sessionId newId _ _ hrec hcopy hcount =>
    have hbytes : newId.bytes = sessionId.bytes := CStr.ofBytes?_eq_some.1 hcopy
    by_cases hsame : newId.bytes = id
    · -- the session was empty
      have hle := countInSession_modify_le_succ hrec.get (User.create newId) id
      have hzero : countInSession m.users id = 0 := by
        rw [← hsame, hbytes, hcount]
      have hmax : maxSessionUser = 6 := rfl
      change countInSession (m.users.modify i (User.create newId)) id ≤ maxSessionUser
      omega
    · exact Nat.le_trans (countInSession_modify_ne (f := User.create newId) hrec.get hsame) hcap
  | @joined i u sessionId newId _ _ hrec hcopy href =>
    have hbytes : newId.bytes = sessionId.bytes := CStr.ofBytes?_eq_some.1 hcopy
    by_cases hsame : newId.bytes = id
    · -- the count is below the bound, since it is not the bound
      have hle := countInSession_modify_le_succ hrec.get (User.join newId) id
      have hfull : countInSession m.users id ≠ maxSessionUser := by
        rw [← hsame, hbytes]
        exact room_of_joinRefusal href
      change countInSession (m.users.modify i (User.join newId)) id ≤ maxSessionUser
      omega
    · exact Nat.le_trans (countInSession_modify_ne (f := User.join newId) hrec.get hsame) hcap
  | leftOut _ _ _ => exact hcap
  | leftReserved _ _ _ _ => exact hcap
  | left _ hrec hin hres =>
    exact Nat.le_trans (countInSession_le (leaves_leftTable hrec hin hres) (fun _ _ _ h => h.session) hid) hcap
  | relayed _ _ _ => exact hcap
  | kicked _ _ ht _ =>
    exact Nat.le_trans (countInSession_modify_le (f := User.kick) ht.get (Or.inr rfl) hid) hcap
  | @promoted i j own t _ hrec ht _ =>
    have hpromote := countInSession_modify_le (f := User.setRole .admin) ht.get (Or.inl rfl) hid
    have hpointwise : Table.Pointwise (fun _ _ _ => True) m.users (m.users.modify j (User.setRole .admin)) :=
      .modify ht.get trivial fun _ _ _ _ => trivial
    obtain ⟨v, hv, -⟩ := hpointwise.get i own hrec.get
    have hdemote := countInSession_modify_le (f := User.setRole .user) hv (Or.inl rfl) hid
    exact Nat.le_trans hdemote (Nat.le_trans hpromote hcap)

end Capacity

/-- No session has more than six users, although `JOIN` refuses the session only when it has exactly six. -/
theorem session_capacity {s : ServerState} (hr : Reachable server s) {sessionId : Bytes}
    (hid : sessionId ≠ notInSession.bytes) : countInSession s.world.mem.users sessionId ≤ maxSessionUser := by
  induction hr with
  | init h =>
    obtain ⟨file, users, hload, rfl⟩ := h
    have hloaded : ∀ u ∈ users, u.sessionId = notInSession := hload.forall_users fun _ _ => rfl
    have hzero : countInSession users sessionId = 0 := by
      refine List.countP_eq_zero.2 ?_
      intro u hu
      simpa [hloaded u hu] using Ne.symm hid
    change countInSession users sessionId ≤ maxSessionUser
    omega
  | @step s t e _ hst ih =>
    have hwaits : ∀ {w : World Mutex Memory}, w.mem = s.clear.mem →
        countInSession w.mem.users sessionId ≤ maxSessionUser := by
      intro w hmem
      rw [hmem]
      exact ih
    cases ServerState.turn hst with
    | accepted _ _ => exact ih
    | served _ _ _ hserved => exact hserved.capacity hid ih
    | recvWaits _ _ hmem => exact hwaits hmem
    | disconnected _ _ hserved =>
      rcases hserved with ⟨-, hmem⟩ | ⟨-, hx⟩
      · exact hwaits hmem
      · exact hx.capacity hid ih
    | disconnectWaits _ _ hmem => exact hwaits hmem

theorem session_capacity_created : ∃ s, afterEvents [.accept 3 ⟨ascii "bob", by decide, by decide⟩,
      .recv 3 (ascii "13:1:bob:x"), .recv 3 (ascii "8:1:bob:s")] = some s ∧
    ascii "s" ≠ notInSession.bytes ∧ countInSession s.world.mem.users (ascii "s") ≤ maxSessionUser := by
  obtain ⟨s, hs⟩ := Option.isSome_iff_exists.1 (show (afterEvents [.accept 3 ⟨ascii "bob", by decide, by decide⟩,
    .recv 3 (ascii "13:1:bob:x"), .recv 3 (ascii "8:1:bob:s")]).isSome = true by decide)
  have hid : ascii "s" ≠ notInSession.bytes := by decide
  exact ⟨s, hs, hid, session_capacity (reachable_afterEvents hs) hid⟩

/-! ### The three views of a session -/

/-- The event does not ask for the reserved text as the name of a session. -/
def AsksProperName (_ : ServerState) : Event → Prop
  | .recv _ chunk => ∀ p ∈ decode (recvBuffer chunk), p.1.type = MsgType.join ∨ p.1.type = MsgType.newSess →
      cstr p.1.data.bytes ≠ notInSession.bytes
  | _ => True

instance (s : ServerState) : DecidablePred (AsksProperName s)
  | .accept _ _ => inferInstanceAs (Decidable True)
  | .recv _ chunk => inferInstanceAs (Decidable (∀ p ∈ decode (recvBuffer chunk),
      p.1.type = MsgType.join ∨ p.1.type = MsgType.newSess → cstr p.1.data.bytes ≠ notInSession.bytes))
  | .disconnect _ => inferInstanceAs (Decidable True)

private theorem reservedFree_of_asksProperName {s : ServerState} {e : Event} (h : AsksProperName s e) :
    ReservedFree s e := by
  cases e with
  | accept => trivial
  | disconnect => trivial
  | recv socketFd chunk =>
    intro conn _ p hdec own _ htakes
    obtain ⟨-, -, htext, hgrant⟩ := htakes
    exact h p hdec (hgrant.imp And.left And.left) htext

/-- The head of the list of users in a session. -/
def sessionUserHead : Bytes :=
  ascii "Active User List:\n" ++ sessionUserLine (ascii "Username") (ascii "Session ID") (ascii "Role")

/-- The line of one user. -/
def User.sessionLine (u : User) : Bytes := sessionUserLine u.username.bytes u.sessionId.bytes u.role.name

/-- The three views of a session agree.  In every run of requests of connections that are logged in and ask for proper
names only, the users of a session that are counted, those that are listed, and those that a chat message is sent to
are the same, in the same order. -/
theorem membership_views {s : ServerState}
    (hr : Reachable (server.when fun s e => OfLoggedIn s e ∧ AsksProperName s e) s) {sessionId : Bytes}
    (hid : sessionId ≠ notInSession.bytes) :
    (∀ u ∈ s.world.mem.users, u ∈ recipients s.world.mem.users sessionId ↔ u.sessionId.bytes = sessionId) ∧
    countInSession s.world.mem.users sessionId = (recipients s.world.mem.users sessionId).length ∧
    sessionUserText s.world.mem.users sessionId =
      sessionUserHead ++ (recipients s.world.mem.users sessionId).flatMap User.sessionLine := by
  have hsound : RecordsSound s :=
    sound_of_reachable (hr.when_mono fun _ _ _ h => ⟨h.1, reservedFree_of_asksProperName h.2⟩)
  have hsame : recipients s.world.mem.users sessionId =
      s.world.mem.users.filter fun u => u.sessionId.bytes = sessionId := by
    apply List.filter_congr
    intro u hu
    simp only [decide_eq_decide]
    refine ⟨fun h => h.2.2, fun heq => ?_⟩
    have hin : u.inSession = .online := (hsound u hu).flag.2 fun h => hid (heq.symm.trans (congrArg CStr.bytes h))
    refine ⟨?_, hin, heq⟩
    cases hstatus : u.status with
    | online => rfl
    | offline => cases hin.symm.trans ((hsound u hu).offline hstatus)
  refine ⟨fun u hu => ?_, ?_, ?_⟩
  · rw [hsame, List.mem_filter]
    simp [hu]
  · rw [hsame, countInSession, List.countP_eq_length_filter]
  · rw [hsame]
    rfl

theorem membership_views_created : ∃ s, afterEventsWhen (fun s e => OfLoggedIn s e ∧ AsksProperName s e)
      [.accept 3 ⟨ascii "bob", by decide, by decide⟩, .recv 3 (ascii "13:1:bob:x"), .recv 3 (ascii "8:1:bob:s")] =
        some s ∧ ascii "s" ≠ notInSession.bytes ∧
    countInSession s.world.mem.users (ascii "s") = (recipients s.world.mem.users (ascii "s")).length := by
  obtain ⟨s, hs⟩ := Option.isSome_iff_exists.1 (show (afterEventsWhen (fun s e => OfLoggedIn s e ∧ AsksProperName s e)
    [.accept 3 ⟨ascii "bob", by decide, by decide⟩, .recv 3 (ascii "13:1:bob:x"),
      .recv 3 (ascii "8:1:bob:s")]).isSome = true by decide)
  have hid : ascii "s" ≠ notInSession.bytes := by decide
  exact ⟨s, hs, hid, (membership_views (reachable_afterEventsWhen hs) hid).2.1⟩

end Conferencing
