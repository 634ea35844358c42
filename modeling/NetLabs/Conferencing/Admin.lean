import NetLabs.Conferencing.Runs

/-!
# Administrators

When every session request is one that the client's guards let through, each session has at most one administrator, a
user who is alone in a session is its administrator, and nobody outside a session has the role
(`administrator_invariant`).

Joining does not set the role, so the invariant has to say that every way out of a session resets it.  It is stated
with the two counts of a session, its records and its administrators, because every request moves a record in or out of
a count.
-/

namespace Conferencing

open CText LockProg Transition

/-! ### Requests that the guards let through -/

/-- The text of a request names a session: it fits its array, and is not the reserved one. -/
abbrev IsSessionName (text : Bytes) : Prop := text.length < maxSessionLength ∧ text ≠ notInSession.bytes

/-- The guards of the client, for the record `own` of the sender. -/
def Guarded (own : User) (received : Message) : Prop :=
  (received.type = MsgType.join → IsSessionName (cstr received.data.bytes)) ∧
  (received.type = MsgType.newSess → own.inSession = .offline ∧ IsSessionName (cstr received.data.bytes)) ∧
  (received.type = MsgType.leaveSess → own.inSession = .online) ∧
  (received.type = MsgType.kick ∨ received.type = MsgType.promote → own.inSession = .online ∧ own.role = .admin)

instance (own : User) (received : Message) : Decidable (Guarded own received) := by
  unfold Guarded
  infer_instance

/-- An event whose request, if there is one, is let through by the guards. -/
def GuardedEvent (s : ServerState) : Event → Prop
  | .recv socketFd chunk => ∀ conn ∈ (s.conns socketFd).conn?, ∀ p ∈ decode (recvBuffer chunk),
      ∀ own ∈ ownRecord s.world.mem.users conn.source.bytes, Guarded own p.1
  | _ => True

instance (s : ServerState) : DecidablePred (GuardedEvent s)
  | .accept _ _ => inferInstanceAs (Decidable True)
  | .recv socketFd chunk => inferInstanceAs (Decidable (∀ conn ∈ (s.conns socketFd).conn?,
      ∀ p ∈ decode (recvBuffer chunk), ∀ own ∈ ownRecord s.world.mem.users conn.source.bytes, Guarded own p.1))
  | .disconnect _ => inferInstanceAs (Decidable True)

/-! ### The invariant -/

/-- The administrators among the records whose session is `sessionId`. -/
def adminsInSession (users : List User) (sessionId : Bytes) : Nat :=
  users.countP fun u => u.sessionId.bytes = sessionId ∧ u.role = .admin

/-- The flag of a record says whether it has a session, and without one it has no authority. -/
structure User.Settled (u : User) : Prop where
  flag : u.inSession = .online ↔ u.sessionId ≠ notInSession
  outside : u.inSession = .offline → u.role = .user

/-- The administrators of one session. -/
structure Governed (users : List User) (sessionId : Bytes) : Prop where
  admins : adminsInSession users sessionId ≤ 1
  alone : countInSession users sessionId = 1 → adminsInSession users sessionId = 1

structure Administered (users : List User) : Prop where
  settled : ∀ u ∈ users, u.Settled
  governed : ∀ sessionId, sessionId ≠ notInSession.bytes → Governed users sessionId

/-- Only the two counts of a session matter. -/
theorem Governed.congr {users users' : List User} {sessionId : Bytes} (h : Governed users sessionId)
    (hcount : countInSession users' sessionId = countInSession users sessionId)
    (hadmins : adminsInSession users' sessionId = adminsInSession users sessionId) : Governed users' sessionId :=
  ⟨by rw [hadmins]; exact h.admins, by rw [hcount, hadmins]; exact h.alone⟩

/-! ### The two counts -/

section Counts

variable {users : List User} {i : Nat} {u : User} {f : User → User} {sessionId : Bytes}

private theorem adminsInSession_le (users : List User) (sessionId : Bytes) :
    adminsInSession users sessionId ≤ countInSession users sessionId := by
  refine List.countP_mono_left fun u _ h => ?_
  simp only [decide_eq_true_eq] at h ⊢
  exact h.1

theorem countInSession_modify (hi : users[i]? = some u) (f : User → User) (sessionId : Bytes) :
    countInSession (users.modify i f) sessionId + (if u.sessionId.bytes = sessionId then 1 else 0) =
      countInSession users sessionId + (if (f u).sessionId.bytes = sessionId then 1 else 0) := by
  simpa [countInSession] using Table.countP_modify (p := fun u => u.sessionId.bytes = sessionId) (f := f) hi

private theorem adminsInSession_modify (hi : users[i]? = some u) (f : User → User) (sessionId : Bytes) :
    adminsInSession (users.modify i f) sessionId +
        (if u.sessionId.bytes = sessionId ∧ u.role = .admin then 1 else 0) =
      adminsInSession users sessionId +
        (if (f u).sessionId.bytes = sessionId ∧ (f u).role = .admin then 1 else 0) := by
  simpa [adminsInSession] using
    Table.countP_modify (p := fun u => u.sessionId.bytes = sessionId ∧ u.role = .admin) (f := f) hi

theorem Administered.modify (h : Administered users) (hi : users[i]? = some u) (hsettled : (f u).Settled)
    (hgoverned : ∀ sessionId, sessionId ≠ notInSession.bytes → Governed (users.modify i f) sessionId) :
    Administered (users.modify i f) := by
  refine ⟨fun v hv => ?_, hgoverned⟩
  rcases Table.mem_modify hi hv with hv | rfl
  · exact h.settled v hv
  · exact hsettled

/-- A change to a record that keeps its session, its flag and its role. -/
private theorem Administered.modify_same (h : Administered users) (hi : users[i]? = some u)
    (hid : (f u).sessionId = u.sessionId) (hin : (f u).inSession = u.inSession) (hrole : (f u).role = u.role) :
    Administered (users.modify i f) := by
  have hu := h.settled u (List.mem_of_getElem? hi)
  refine h.modify hi ⟨by rw [hin, hid]; exact hu.flag, by rw [hin, hrole]; exact hu.outside⟩ fun id hne => ?_
  have hcount := countInSession_modify hi f id
  have hadmins := adminsInSession_modify hi f id
  rw [hid] at hcount
  rw [hid, hrole] at hadmins
  exact (h.governed id hne).congr (by omega) (by omega)

end Counts

/-! ### What each request keeps -/

section Requests

variable {users : List User} {name : Bytes} {i : Nat} {u : User}

theorem User.Settled.no_session (h : u.Settled) (hin : u.inSession = .offline) : u.sessionId = notInSession := by
  by_contra hid
  have := h.flag.2 hid
  rw [hin] at this
  cases this

private theorem administered_append (h : Administered users) (username : CStr maxName)
    (password : CStr maxPasswordLength) (socketFd : Nat) :
    Administered (users ++ [registeredUser username password socketFd]) := by
  refine ⟨fun v hv => ?_, fun id hne => ?_⟩
  · rcases List.mem_append.1 hv with hv | hv
    · exact h.settled v hv
    · rw [List.mem_singleton.1 hv]
      exact ⟨⟨(nomatch ·), fun hid => absurd rfl hid⟩, fun _ => rfl⟩
  · have hnew : ¬ (registeredUser username password socketFd).sessionId.bytes = id := fun h => hne h.symm
    refine (h.governed id hne).congr ?_ ?_
    · simp [countInSession, List.countP_append, hnew]
    · simp [adminsInSession, List.countP_append, hnew]

private theorem administered_create (h : Administered users) (hi : users[i]? = some u) (hin : u.inSession = .offline)
    {id : CStr maxSessionLength} (hid : id ≠ notInSession) (hcount : countInSession users id.bytes = 0) :
    Administered (users.modify i (User.create id)) := by
  have hout := (h.settled u (List.mem_of_getElem? hi)).no_session hin
  refine h.modify hi ⟨⟨fun _ => hid, fun _ => rfl⟩, (nomatch ·)⟩ fun id' hne => ?_
  have hc := countInSession_modify hi (User.create id) id'
  have ha := adminsInSession_modify hi (User.create id) id'
  have hu : ¬ u.sessionId.bytes = id' := by rw [hout]; exact Ne.symm hne
  by_cases heq : id.bytes = id'
  · subst heq
    have hzero := adminsInSession_le users id.bytes
    simp only [User.create, hu, false_and, ↓reduceIte, and_self] at hc ha
    exact ⟨by omega, fun _ => by omega⟩
  · simp only [User.create, hu, heq, false_and, ↓reduceIte] at hc ha
    exact (h.governed id' hne).congr (by omega) (by omega)

/-- Who joins is not an administrator, and is not alone. -/
private theorem administered_join (h : Administered users) (hi : users[i]? = some u) (hin : u.inSession = .offline)
    {id : CStr maxSessionLength} (hid : id ≠ notInSession) (hcount : countInSession users id.bytes ≠ 0) :
    Administered (users.modify i (User.join id)) := by
  have hu := h.settled u (List.mem_of_getElem? hi)
  have hrole := hu.outside hin
  refine h.modify hi ⟨⟨fun _ => hid, fun _ => rfl⟩, (nomatch ·)⟩ fun id' hne => ?_
  have hc := countInSession_modify hi (User.join id) id'
  have ha := adminsInSession_modify hi (User.join id) id'
  have hu' : ¬ u.sessionId.bytes = id' := by rw [hu.no_session hin]; exact Ne.symm hne
  simp only [User.join, hu', hrole, reduceCtorEq, and_false, ↓reduceIte] at hc ha
  have hgoverned := h.governed id' hne
  by_cases heq : id.bytes = id'
  · subst heq
    have := hgoverned.admins
    simp only [↓reduceIte] at hc
    exact ⟨by omega, fun h1 => by omega⟩
  · simp only [heq, ↓reduceIte] at hc
    exact hgoverned.congr (by omega) (by omega)

/-- The loop of `set_the_only_user_admin` makes every record of the session an administrator. -/
private theorem adminsInSession_onlyUserAdmin (users : List User) (sessionId : Bytes) :
    adminsInSession (onlyUserAdmin users sessionId) sessionId = countInSession users sessionId := by
  simp only [adminsInSession, countInSession, onlyUserAdmin, List.countP_map]
  refine List.countP_congr fun u _ => ?_
  simp only [Function.comp_apply, decide_eq_true_eq]
  by_cases hid : u.sessionId.bytes = sessionId
  · cases hrole : u.role <;> simp [hid, hrole]
  · simp [hid]

private theorem adminsInSession_onlyUserAdmin_ne (users : List User) {sessionId id : Bytes} (hne : id ≠ sessionId) :
    adminsInSession (onlyUserAdmin users sessionId) id = adminsInSession users id := by
  simp only [adminsInSession, onlyUserAdmin, List.countP_map]
  refine List.countP_congr fun u _ => ?_
  simp only [Function.comp_apply, decide_eq_true_eq]
  by_cases hid : u.sessionId.bytes = sessionId
  · have hne' : ¬ sessionId = id := fun h => hne h.symm
    cases hrole : u.role <;> simp [hid, hne']
  · simp [hid]

private theorem countInSession_onlyUserAdmin (users : List User) (sessionId id : Bytes) :
    countInSession (onlyUserAdmin users sessionId) id = countInSession users id := by
  simp only [countInSession, onlyUserAdmin, List.countP_map]
  refine List.countP_congr fun u _ => ?_
  simp only [Function.comp_apply, decide_eq_true_eq]
  split
  · split <;> exact Iff.rfl
  · exact Iff.rfl

/-- `set_the_only_user_admin` restores the invariant in the one session where it may have been lost. -/
private theorem administered_onlyUserAdmin {sessionId : Bytes} (hsettled : ∀ u ∈ users, u.Settled)
    (hid : sessionId ≠ notInSession.bytes) (hone : countInSession users sessionId = 1)
    (hothers : ∀ id, id ≠ notInSession.bytes → id ≠ sessionId → Governed users id) :
    Administered (onlyUserAdmin users sessionId) := by
  constructor
  · intro v hv
    obtain ⟨u, hu, rfl⟩ := List.mem_map.1 hv
    have hu' := hsettled u hu
    split
    · rename_i hsess
      split
      · refine ⟨hu'.flag, fun hin => ?_⟩
        rw [hu'.no_session hin] at hsess
        exact absurd hsess.symm hid
      · exact hu'
    · exact hu'
  · intro id hne
    by_cases heq : id = sessionId
    · subst heq
      have := adminsInSession_onlyUserAdmin users id
      exact ⟨by omega, fun _ => by omega⟩
    · exact (hothers id hne heq).congr (countInSession_onlyUserAdmin users sessionId id)
        (adminsInSession_onlyUserAdmin_ne users heq)

private theorem administered_leave (h : Administered users) (hi : users[i]? = some u)
    (hid : u.sessionId ≠ notInSession) :
    Administered (leftTable users i u.sessionId.bytes) := by
  have hne : u.sessionId.bytes ≠ notInSession.bytes := fun heq => hid (CStr.ext heq)
  have hcount := countInSession_modify hi User.leave
  have hadmins := adminsInSession_modify hi User.leave
  have hsettled : ∀ v ∈ users.modify i User.leave, v.Settled := by
    intro v hv
    rcases Table.mem_modify hi hv with hv | rfl
    · exact h.settled v hv
    · exact ⟨⟨(nomatch ·), fun hid => absurd rfl hid⟩, fun _ => rfl⟩
  have hothers : ∀ id, id ≠ notInSession.bytes → id ≠ u.sessionId.bytes →
      Governed (users.modify i User.leave) id := by
    intro id hres hother
    have hc := hcount id
    have ha := hadmins id
    simp only [User.leave, Ne.symm hres, Ne.symm hother, false_and, ↓reduceIte] at hc ha
    exact (h.governed id hres).congr (by omega) (by omega)
  unfold leftTable
  dsimp only
  split
  · exact administered_onlyUserAdmin hsettled hne ‹_› hothers
  · rename_i hmany
    refine ⟨hsettled, fun id hres => ?_⟩
    by_cases heq : id = u.sessionId.bytes
    · subst heq
      have ha := hadmins u.sessionId.bytes
      have hle := (h.governed _ hres).admins
      simp only [User.leave, Ne.symm hne, false_and, ↓reduceIte] at ha
      exact ⟨by omega, fun h1 => absurd h1 hmany⟩
    · exact hothers id hres heq

/-- The administrator who kicks stays in the session. -/
private theorem administered_kick (h : Administered users) (hi : users[i]? = some u) (hadmin : u.role = .admin)
    {j : Nat} {t : User} (hj : users[j]? = some t) (hid : t.sessionId = u.sessionId) (hrole : t.role = .user) :
    Administered (users.modify j User.kick) := by
  refine h.modify hj ⟨⟨(nomatch ·), fun hid => absurd rfl hid⟩, fun _ => hrole⟩ fun id hne => ?_
  have hc := countInSession_modify hj User.kick id
  have ha := adminsInSession_modify hj User.kick id
  have hres : ¬ notInSession.bytes = id := Ne.symm hne
  have hgoverned := h.governed id hne
  simp only [User.kick, hres, hrole, reduceCtorEq, and_false, ↓reduceIte] at hc ha
  by_cases heq : t.sessionId.bytes = id
  · have hpos : 0 < adminsInSession users id := by
      refine List.countP_pos_iff.2 ⟨u, List.mem_of_getElem? hi, ?_⟩
      simp [← heq, hid, hadmin]
    have := hgoverned.admins
    exact ⟨by omega, fun _ => by omega⟩
  · simp only [heq, ↓reduceIte] at hc
    exact hgoverned.congr (by omega) (by omega)

/-- The role goes from one member of the session to another. -/
private theorem administered_promote (h : Administered users) (hi : users[i]? = some u) (hadmin : u.role = .admin)
    {j : Nat} {t : User} (hj : users[j]? = some t) (hid : t.sessionId = u.sessionId) (hin : t.inSession = .online)
    (hrole : t.role = .user) :
    Administered ((users.modify j (User.setRole .admin)).modify i (User.setRole .user)) := by
  have hij : i ≠ j := by
    rintro rfl
    obtain rfl : u = t := Option.some.inj (hi.symm.trans hj)
    rw [hadmin] at hrole
    cases hrole
  have hi' : (users.modify j (User.setRole .admin))[i]? = some u := by
    rw [List.getElem?_modify_ne _ _ (Ne.symm hij), hi]
  have hu := h.settled u (List.mem_of_getElem? hi)
  have ht := h.settled t (List.mem_of_getElem? hj)
  constructor
  · intro v hv
    rcases Table.mem_modify hi' hv with hv | rfl
    · rcases Table.mem_modify hj hv with hv | rfl
      · exact h.settled v hv
      · exact ⟨ht.flag, fun hoff => absurd (hin.symm.trans hoff) (by decide)⟩
    · exact ⟨hu.flag, fun _ => rfl⟩
  · intro id hne
    have hc := countInSession_modify hj (User.setRole .admin) id
    have hc' := countInSession_modify hi' (User.setRole .user) id
    have ha := adminsInSession_modify hj (User.setRole .admin) id
    have ha' := adminsInSession_modify hi' (User.setRole .user) id
    simp only [User.setRole, hrole, hadmin, hid, reduceCtorEq, and_true, and_false, ↓reduceIte] at hc hc' ha ha'
    by_cases heq : u.sessionId.bytes = id
    · simp only [heq, ↓reduceIte] at hc hc' ha ha'
      exact (h.governed id hne).congr (by omega) (by omega)
    · simp only [heq, ↓reduceIte] at hc hc' ha ha'
      exact (h.governed id hne).congr (by omega) (by omega)

/-- `server_side_user_exit`: `OFFLINE` and the socket are written after the session has been left. -/
theorem Exits.administered {m m' : Memory} (hx : Exits m name m') (h : Administered m.users) :
    Administered m'.users := by
  cases hx with
  | out hrec _ => exact h.modify_same hrec.get rfl rfl rfl
  | reserved hrec _ _ => exact h.modify_same hrec.get rfl rfl rfl
  | @leaving i u hrec _ hid =>
    obtain ⟨v, hv, -⟩ := (changed_leftTable hrec.get hid).getElem? hrec.get
    exact (administered_leave h hrec.get hid).modify_same hv rfl rfl rfl

end Requests

/-! ### One event, and whole runs -/

theorem Served.administered {socketFd : Nat} {conn : Conn} {received : Message} {claimed : CStr maxName}
    {m m' : Memory} {r : Option Conn} (hs : Served socketFd conn received claimed m r m') (h : Administered m.users)
    (hguard : ∀ i own, Record m.users conn.source.bytes i own → Guarded own received) :
    Administered m'.users := by
  cases hs with
  | answered _ _ _ => exact h
  | echoed _ => exact h
  | loggedIn _ hrec _ => exact h.modify_same hrec.get rfl rfl rfl
  | registered _ _ _ _ => exact administered_append h _ _ _
  | exited _ hx => exact hx.administered h
  | created htype hdata hrec hid hcount =>
    obtain ⟨-, hnew, -, -⟩ := hguard _ _ hrec
    obtain ⟨hin, -, hres⟩ := hnew htype
    have hbytes := CStr.ofBytes?_eq_some.1 hid
    refine administered_create h hrec.get hin (fun heq => hres ?_) (by rw [hbytes]; exact hcount)
    rw [CArray.cstr_of_text? hdata, ← hbytes, heq]
  | @joined i u sessionId id htype hdata hrec hid href =>
    obtain ⟨hjoin, -, -, -⟩ := hguard _ _ hrec
    have hres := (hjoin htype).2
    have hbytes := CStr.ofBytes?_eq_some.1 hid
    obtain ⟨hin, hcount⟩ := joinRefusal_eq_none href
    refine administered_join h hrec.get hin (fun heq => hres ?_) (by rw [hbytes]; exact hcount)
    rw [CArray.cstr_of_text? hdata, ← hbytes, heq]
  | leftOut _ _ _ => exact h
  | leftReserved _ _ _ _ => exact h
  | left _ hrec _ hid => exact administered_leave h hrec.get hid
  | relayed _ _ _ => exact h
  | kicked htype hrec ht href =>
    obtain ⟨-, -, -, hadmin⟩ := hguard _ _ hrec
    obtain ⟨j', t', ht', -, -, hid, hrole⟩ := refusal_eq_none href
    obtain ⟨rfl, rfl⟩ := ht.unique ht'
    exact administered_kick h hrec.get (hadmin (Or.inl htype)).2 ht.get hid hrole
  | promoted htype hrec ht href =>
    obtain ⟨-, -, -, hadmin⟩ := hguard _ _ hrec
    obtain ⟨j', t', ht', -, hin, hid, hrole⟩ := refusal_eq_none href
    obtain ⟨rfl, rfl⟩ := ht.unique ht'
    exact administered_promote h hrec.get (hadmin (Or.inr htype)).2 ht.get hid hin hrole

theorem Turn.administered {s t : ServerState} {e : Event} (hturn : Turn s e t) (hguard : GuardedEvent s e)
    (h : Administered s.world.mem.users) : Administered t.world.mem.users := by
  cases hturn with
  | accepted _ _ => exact h
  | served hconn hdec _ hserved =>
    exact hserved.administered h fun i own hrec => hguard _ (by rw [hconn]; rfl) _ hdec _ (ownRecord_eq hrec)
  | recvWaits _ _ hmem =>
    exact hmem.symm ▸ h
  | disconnected _ _ hserved =>
    rcases hserved with ⟨-, hmem⟩ | ⟨-, hx⟩
    · exact hmem.symm ▸ h
    · exact hx.administered h
  | disconnectWaits _ _ hmem =>
    exact hmem.symm ▸ h

theorem administered_of_reachable {s : ServerState} (hr : Reachable (server.when GuardedEvent) s) :
    Administered s.world.mem.users := by
  induction hr with
  | init h =>
    obtain ⟨file, users, hload, rfl⟩ := h
    have hloaded : ∀ u ∈ users, u.sessionId = notInSession ∧ u.inSession = .offline ∧ u.role = .user :=
      hload.forall_users fun _ _ => ⟨rfl, rfl, rfl⟩
    refine ⟨fun u hu => ?_, fun id hne => ?_⟩
    · obtain ⟨hid, hin, hrole⟩ := hloaded u hu
      exact ⟨⟨fun hon => absurd (hin.symm.trans hon) (by decide), fun hne => absurd hid hne⟩, fun _ => hrole⟩
    · have hzero : countInSession users id = 0 := by
        refine List.countP_eq_zero.2 fun u hu => ?_
        simpa [(hloaded u hu).1] using Ne.symm hne
      have hle := adminsInSession_le users id
      exact ⟨by show adminsInSession users id ≤ 1; omega, fun h1 => absurd (hzero.symm.trans h1) (by decide)⟩
  | step _ hst ih => exact (ServerState.turn hst.2).administered hst.1 ih

/-- The members of a session. -/
def members (users : List User) (sessionId : Bytes) : List User :=
  users.filter fun u => u.inSession = .online ∧ u.sessionId.bytes = sessionId

private theorem members_reserved {users : List User} (h : Administered users) {id : Bytes}
    (hres : id = notInSession.bytes) :
    members users id = [] := by
  refine List.filter_eq_nil_iff.2 fun u hu => ?_
  simp only [decide_eq_true_eq, not_and]
  exact fun hin hid => (h.settled u hu).flag.1 hin (CStr.ext (hid.trans hres))

private theorem members_eq {users : List User} (h : Administered users) {id : Bytes} (hres : id ≠ notInSession.bytes) :
    members users id = users.filter fun u => u.sessionId.bytes = id := by
  refine List.filter_congr fun u hu => ?_
  simp only [decide_eq_decide, and_iff_right_iff_imp]
  refine fun hid => (h.settled u hu).flag.2 fun heq => hres ?_
  rw [← hid, heq]

/-- In every run whose requests are let through by the guards, every session has at most one administrator, a user
alone in a session is its administrator, and a user in no session has no authority. -/
theorem administrator_invariant {s : ServerState} (hr : Reachable (server.when GuardedEvent) s) :
    (∀ sessionId, ((members s.world.mem.users sessionId).filter fun u => u.role = .admin).length ≤ 1) ∧
    (∀ sessionId u, members s.world.mem.users sessionId = [u] → u.role = .admin) ∧
    ∀ u ∈ s.world.mem.users, u.inSession = .offline ∨ u.sessionId = notInSession → u.role = .user := by
  have h := administered_of_reachable hr
  refine ⟨fun id => ?_, fun id u hu => ?_, fun u hu hout => ?_⟩
  · by_cases hres : id = notInSession.bytes
    · simp [members_reserved h hres]
    · have hle := (h.governed id hres).admins
      rw [members_eq h hres, List.filter_filter, ← List.countP_eq_length_filter]
      refine Nat.le_trans (List.countP_mono_left fun u _ hu => ?_) hle
      simpa [and_comm] using hu
  · by_cases hres : id = notInSession.bytes
    · rw [members_reserved h hres] at hu
      cases hu
    · rw [members_eq h hres] at hu
      have hmem : u ∈ s.world.mem.users.filter fun u => u.sessionId.bytes = id := by rw [hu]; simp
      have hone : countInSession s.world.mem.users id = 1 := by
        rw [countInSession, List.countP_eq_length_filter, hu]
        rfl
      have hpos : 0 < adminsInSession s.world.mem.users id := by
        rw [(h.governed id hres).alone hone]
        exact Nat.one_pos
      obtain ⟨v, hv, hadmin⟩ := List.countP_pos_iff.1 hpos
      simp only [decide_eq_true_eq] at hadmin
      have hv' : v ∈ s.world.mem.users.filter fun u => u.sessionId.bytes = id := by
        simp [hv, hadmin.1]
      rw [hu, List.mem_singleton] at hv'
      exact hv' ▸ hadmin.2
  · have hsettled := h.settled u hu
    rcases hout with hin | hid
    · exact hsettled.outside hin
    · refine hsettled.outside ?_
      cases hin : u.inSession with
      | offline => rfl
      | online => exact absurd hid (hsettled.flag.1 hin)

/-- The events of a run that the guards let through. -/
def guardedNext (s : ServerState) (e : Event) : Option ServerState := if GuardedEvent s e then s.next e else none

theorem administrator_invariant_created : ∃ s, runFrom guardedNext (started [] [])
      [.accept 3 ⟨ascii "bob", by decide, by decide⟩, .recv 3 (ascii "13:1:bob:x"), .recv 3 (ascii "8:1:bob:s")] =
        some s ∧
    (∀ sessionId, ((members s.world.mem.users sessionId).filter fun u => u.role = .admin).length ≤ 1) ∧
    (∀ sessionId u, members s.world.mem.users sessionId = [u] → u.role = .admin) ∧
    ∀ u ∈ s.world.mem.users, u.inSession = .offline ∨ u.sessionId = notInSession → u.role = .user := by
  obtain ⟨s, hs⟩ := Option.isSome_iff_exists.1 (show (runFrom guardedNext (started [] [])
    [.accept 3 ⟨ascii "bob", by decide, by decide⟩, .recv 3 (ascii "13:1:bob:x"),
      .recv 3 (ascii "8:1:bob:s")]).isSome = true by decide)
  refine ⟨s, hs, administrator_invariant (Reachable.runFrom (fun s e t h => ?_) (.init ⟨[], [], ⟨1, rfl⟩, rfl⟩) hs)⟩
  simp only [guardedNext, Option.ite_none_right_eq_some] at h
  exact h

end Conferencing
