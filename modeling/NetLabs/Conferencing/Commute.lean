import NetLabs.Lib.Footprint
import NetLabs.Conferencing.Identity
import NetLabs.Conferencing.RwMutex

/-!
# Requests in different sessions

A request for a session looks at the records of the sessions it touches, which are the one that its user is in and the
one that it asks for, and at the record of its user.  It changes no other record.  Two such requests of different users
that touch different sessions therefore end in the same table in either order (`sessions_commute`).
-/

namespace Conferencing

open CText LockProg Transition Footprint

/-! ### Requests for a session -/

/-- The requests that act for the name of their connection. -/
inductive SessionRequest
  | exit
  | join (data : Option (CStr maxData))
  | newSess (data : Option (CStr maxData))
  | leaveSess
  | kick (target : Bytes)
  | promote (target : Bytes)
  deriving DecidableEq

/-- The request in a message. -/
def sessionRequest (received : Message) : Option SessionRequest :=
  if received.type = MsgType.exit then some .exit
  else if received.type = MsgType.join then some (.join received.data.text?)
  else if received.type = MsgType.newSess then some (.newSess received.data.text?)
  else if received.type = MsgType.leaveSess then some .leaveSess
  else if received.type = MsgType.kick then some (.kick (cstr received.data.bytes))
  else if received.type = MsgType.promote then some (.promote (cstr received.data.bytes))
  else none

namespace SessionRequest

/-- The branch of `connection_handler`, up to what becomes of the connection. -/
def handle (source : CStr maxName) : SessionRequest → Handler Unit
  | .exit => serverSideUserExit source
  | .join data => do serverSideSessionJoin source (← checked data)
  | .newSess data => do serverSideSessionCreate source (← checked data)
  | .leaveSess => serverSideSessionLeave source
  | .kick target => serverSideKickUser source target
  | .promote target => serverSidePromoteUser source target

/-- The locals of the connection after the request. -/
def keeps (conn : Conn) : SessionRequest → Option Conn
  | .exit => none
  | _ => some conn

/-- The session that the request asks for. -/
def asked : SessionRequest → Option Bytes
  | .join data => data.map CStr.bytes
  | .newSess data => data.map CStr.bytes
  | _ => none

end SessionRequest

/-- The session that a user is in. -/
def User.session (u : User) : Option Bytes := if u.inSession = .online then some u.sessionId.bytes else none

/-- The sessions that a request of the user with record `own` touches. -/
def SessionRequest.touches (q : SessionRequest) (own : User) : Set Bytes :=
  {id | own.session = some id ∨ q.asked = some id}

private theorem serve_request {socketFd : Nat} {conn : Conn} {chunk : Bytes} {received : Message}
    {claimed : CStr maxName}
    {q : SessionRequest} (hdec : decode (recvBuffer chunk) = some (received, claimed))
    (hq : sessionRequest received = some q) (w : World Mutex Memory) :
    serve socketFd conn chunk w = (q.handle conn.source w).bind fun _ => pure (q.keeps conn) := by
  unfold sessionRequest at hq
  split at hq
  · cases hq
    exact serve_exit hdec ‹_›
  split at hq
  · cases hq
    cases hdata : received.data.text? with
    | none => exact serve_unclosed hdec (Or.inl ‹_›) hdata
    | some data => exact serve_join hdec ‹_› hdata
  split at hq
  · cases hq
    cases hdata : received.data.text? with
    | none => exact serve_unclosed hdec (Or.inr ‹_›) hdata
    | some data => exact serve_create hdec ‹_› hdata
  split at hq
  · cases hq
    exact serve_leave hdec ‹_›
  split at hq
  · cases hq
    exact serve_kick hdec ‹_›
  split at hq
  · cases hq
    exact serve_promote hdec ‹_›
  · cases hq

/-! ### Plans -/

/-- Change the record at one position. -/
def onlyAt (i : Nat) (f : User → User) (k : Nat) (u : User) : User := if k = i then f u else u

@[simp] theorem onlyAt_self (i : Nat) (f : User → User) (u : User) : onlyAt i f i u = f u := if_pos rfl

theorem onlyAt_ne {i k : Nat} (hk : k ≠ i) (f : User → User) (u : User) : onlyAt i f k u = u := if_neg hk

private theorem mapIdx_onlyAt (users : List User) (i : Nat) (f : User → User) :
    users.mapIdx (onlyAt i f) = users.modify i f := by
  apply List.ext_getElem?
  intro k
  rw [List.getElem?_mapIdx]
  by_cases hik : k = i
  · subst hik
    rw [List.getElem?_modify_eq, funext (onlyAt_self k f), Option.map_eq_map]
  · rw [List.getElem?_modify_ne _ _ (Ne.symm hik), funext (onlyAt_ne hik f), Option.map_id']

/-- The record at each position after the user at `i`, with record `own`, has left its session. -/
def leaving (users : List User) (i : Nat) (own : User) (k : Nat) (u : User) : User :=
  let u := onlyAt i User.leave k u
  if countInSession (users.modify i User.leave) own.sessionId.bytes = 1 ∧ u.sessionId = own.sessionId then
    u.setRole .admin
  else u

theorem mapIdx_leaving (users : List User) (i : Nat) (own : User) :
    users.mapIdx (leaving users i own) = leftTable users i own.sessionId.bytes := by
  have hset : ∀ u : User, (if u.role = .user then { u with role := .admin } else u) = u.setRole .admin := by
    intro u
    cases hrole : u.role with
    | admin => simp [User.setRole, ← hrole]
    | user => rfl
  unfold leftTable onlyUserAdmin
  simp only [hset, ← mapIdx_onlyAt]
  split
  · rename_i hone
    apply List.ext_getElem?
    intro k
    rw [List.getElem?_mapIdx, List.getElem?_map, List.getElem?_mapIdx, Option.map_map]
    refine congrArg (Option.map · users[k]?) (funext fun u => ?_)
    simp [leaving, ← mapIdx_onlyAt, hone, CStr.ext_iff]
  · rename_i hone
    refine congrArg (users.mapIdx ·) (funext fun k => funext fun u => ?_)
    simp [leaving, ← mapIdx_onlyAt, hone]

/-- The position of the target of a kick or a promotion that is not refused. -/
def granted (users : List User) (target : Bytes) (own : User) : Option Nat :=
  if refusal users target own = none then databaseSearchUser users target else none

/-- The user at `i` goes into the session called `data`, when that is granted. -/
def entering (i : Nat) (granted : Prop) [Decidable granted] (data : CStr maxData)
    (f : CStr maxSessionLength → User → User) : Option (Nat → User → User) :=
  if granted then (data.copy? maxSessionLength).map fun id => onlyAt i (f id) else some fun _ u => u

private theorem entering_cases {i : Nat} {granted : Prop} [Decidable granted] {data : CStr maxData}
    {f : CStr maxSessionLength → User → User} {g : Nat → User → User} (h : entering i granted data f = some g) :
    (g = fun _ u => u) ∨ ∃ id : CStr maxSessionLength, id.bytes = data.bytes ∧ g = onlyAt i (f id) := by
  unfold entering at h
  split at h
  · obtain ⟨id, hid, rfl⟩ := Option.map_eq_some_iff.1 h
    exact Or.inr ⟨id, CStr.ofBytes?_eq_some.1 hid, rfl⟩
  · exact Or.inl (Option.some.inj h).symm

/-- What a request of the user at `i`, with record `own`, does to the table. -/
def SessionRequest.plan (i : Nat) (own : User) : SessionRequest → Plan User
  | .exit => fun users => some fun k u =>
    onlyAt i User.exit k (if own.inSession = .online then leaving users i own k u else u)
  | .join none => fun _ => none
  | .join (some data) => fun users => entering i (joinRefusal users own data.bytes = none) data User.join
  | .newSess none => fun _ => none
  | .newSess (some data) => fun users => entering i (countInSession users data.bytes = 0) data User.create
  | .leaveSess => fun users => some (leaving users i own)
  | .kick target => fun users =>
    match granted users target own with
    | none => some fun _ u => u
    | some j => some (onlyAt j User.kick)
  | .promote target => fun users =>
    match granted users target own with
    | none => some fun _ u => u
    | some j => some fun k u => onlyAt i (User.setRole .user) k (onlyAt j (User.setRole .admin) k u)

/-- What a request does to the table when `user_list_mutex` is held. -/
def SessionRequest.waiting : SessionRequest → Plan User
  | .join none => fun _ => none
  | .newSess none => fun _ => none
  | _ => fun _ => some fun _ u => u

/-- The handler returns or waits, the table is changed as chosen, the mutexes are left as they were. -/
def Follows (o : Outcome Mutex Memory Unit) (w : World Mutex Memory) (change : Option (Nat → User → User)) : Prop :=
  match change with
  | none => o = .fault
  | some f => ∃ w', (o = .ret () w' ∨ o = .blocked w') ∧ w'.mem.users = w.mem.users.mapIdx f ∧ w'.held = w.held

section Follows

variable {w : World Mutex Memory} {source : CStr maxName} {i : Nat} {own : User}

private theorem mapIdx_same (users : List User) : users.mapIdx (fun _ u => u) = users := by
  apply List.ext_getElem?
  intro k
  simp

private theorem follows_same {m : Memory} (h : m.users = w.mem.users) :
    Follows (.ret () (w.setMem m)) w (some fun _ u => u) :=
  ⟨_, Or.inl rfl, h.trans (mapIdx_same _).symm, rfl⟩

private theorem follows_onlyAt {m : Memory} {f : User → User} (h : m.users = w.mem.users.modify i f) :
    Follows (.ret () (w.setMem m)) w (some (onlyAt i f)) :=
  ⟨_, Or.inl rfl, h.trans (mapIdx_onlyAt _ _ _).symm, rfl⟩

private theorem follows_waiting (hrec : Record w.mem.users source.bytes i own) (hul : w.held .userList = true)
    (q : SessionRequest) : Follows (q.handle source w) w (q.waiting w.mem.users) := by
  have hblocked : Follows (.blocked w) w (some fun _ u => u) := ⟨w, Or.inr rfl, (mapIdx_same _).symm, rfl⟩
  cases q with
  | exit =>
    simp only [SessionRequest.handle, run_serverSideUserExit hrec, hul]
    exact hblocked
  | join data =>
    cases data with
    | none => rfl
    | some data =>
      simp only [SessionRequest.handle, run_bind, run_checked_some, bind_ret, run_serverSideSessionJoin hrec, hul]
      exact hblocked
  | newSess data =>
    cases data with
    | none => rfl
    | some data =>
      simp only [SessionRequest.handle, run_bind, run_checked_some, bind_ret, run_serverSideSessionCreate hrec, hul]
      exact hblocked
  | leaveSess =>
    simp only [SessionRequest.handle, leave_waits hul]
    exact hblocked
  | kick target =>
    simp only [SessionRequest.handle, serverSideKickUser, withTarget_waits hul]
    exact hblocked
  | promote target =>
    simp only [SessionRequest.handle, serverSidePromoteUser, withTarget_waits hul]
    exact hblocked

private theorem follows_join (hrec : Record w.mem.users source.bytes i own) (hul : w.held .userList = false)
    (hrw : RwFree w) (data : Option (CStr maxData)) :
    Follows ((SessionRequest.join data).handle source w) w ((SessionRequest.join data).plan i own w.mem.users) := by
  cases data with
  | none => rfl
  | some data =>
    simp only [SessionRequest.handle, SessionRequest.plan, entering, run_bind, run_checked_some, bind_ret,
      run_serverSideSessionJoin hrec, hul, show w.held .rw = false from hrw, joined]
    cases joinRefusal w.mem.users own data.bytes with
    | some code => exact follows_same rfl
    | none =>
      cases data.copy? maxSessionLength with
      | none => rfl
      | some id => exact follows_onlyAt rfl

private theorem follows_newSess (hrec : Record w.mem.users source.bytes i own) (hul : w.held .userList = false)
    (hrw : RwFree w) (data : Option (CStr maxData)) :
    Follows ((SessionRequest.newSess data).handle source w) w
      ((SessionRequest.newSess data).plan i own w.mem.users) := by
  cases data with
  | none => rfl
  | some data =>
    simp only [SessionRequest.handle, SessionRequest.plan, entering, run_bind, run_checked_some, bind_ret,
      run_serverSideSessionCreate hrec, hul, show w.held .rw = false from hrw, created]
    by_cases h0 : countInSession w.mem.users data.bytes = 0
    · simp only [h0]
      cases data.copy? maxSessionLength with
      | none => rfl
      | some id => exact follows_onlyAt rfl
    · simp only [h0]
      exact follows_same rfl

private theorem follows_leaveSess (hrec : Record w.mem.users source.bytes i own) (hul : w.held .userList = false)
    (hrw : RwFree w) (hplaced : own.Placed) (hin : own.inSession = .online) :
    Follows (SessionRequest.leaveSess.handle source w) w (SessionRequest.leaveSess.plan i own w.mem.users) := by
  simp only [SessionRequest.handle, SessionRequest.plan, run_serverSideSessionLeave hrec, hul, hin,
    show w.held .rw = false from hrw, hplaced hin]
  exact ⟨_, Or.inl rfl, (mapIdx_leaving _ _ _).symm, rfl⟩

private theorem follows_exit (hrec : Record w.mem.users source.bytes i own) (hul : w.held .userList = false)
    (hrw : RwFree w) (hplaced : own.Placed) :
    Follows (SessionRequest.exit.handle source w) w (SessionRequest.exit.plan i own w.mem.users) := by
  simp only [SessionRequest.handle, SessionRequest.plan, run_serverSideUserExit hrec, hul,
    show w.held .rw = false from hrw]
  cases hin : own.inSession with
  | offline => exact follows_onlyAt rfl
  | online =>
    simp only [hplaced hin]
    refine ⟨_, Or.inl rfl, ?_, rfl⟩
    change (leftTable w.mem.users i own.sessionId.bytes).modify i User.exit = _
    rw [← mapIdx_leaving, ← mapIdx_onlyAt, List.mapIdx_mapIdx]
    rfl

private theorem follows_kick (hrec : Record w.mem.users source.bytes i own) (hul : w.held .userList = false)
    (target : Bytes) :
    Follows ((SessionRequest.kick target).handle source w) w ((SessionRequest.kick target).plan i own w.mem.users) := by
  cases href : refusal w.mem.users target own with
  | some code =>
    have hrun := run_withTarget (show MsgType.kiNak ≠ MsgType.message by decide) hrec
    simp only [SessionRequest.handle, SessionRequest.plan, granted, serverSideKickUser, hrun, hul, href]
    exact follows_same rfl
  | none =>
    obtain ⟨j, t, ht, -⟩ := refusal_eq_none href
    have hfound : databaseSearchUser w.mem.users target = some j := ht.found
    simp only [SessionRequest.handle, SessionRequest.plan, granted, run_serverSideKickUser hrec ht, hul, href, hfound]
    exact follows_onlyAt rfl

private theorem follows_promote (hrec : Record w.mem.users source.bytes i own) (hul : w.held .userList = false)
    (target : Bytes) :
    Follows ((SessionRequest.promote target).handle source w) w
      ((SessionRequest.promote target).plan i own w.mem.users) := by
  cases href : refusal w.mem.users target own with
  | some code =>
    have hrun := run_withTarget (show MsgType.pmNak ≠ MsgType.message by decide) hrec
    simp only [SessionRequest.handle, SessionRequest.plan, granted, serverSidePromoteUser, hrun, hul, href]
    exact follows_same rfl
  | none =>
    obtain ⟨j, t, ht, -⟩ := refusal_eq_none href
    have hfound : databaseSearchUser w.mem.users target = some j := ht.found
    simp only [SessionRequest.handle, SessionRequest.plan, granted, run_serverSidePromoteUser hrec ht, hul, href, hfound]
    refine ⟨_, Or.inl rfl, ?_, rfl⟩
    change (w.mem.users.modify j (User.setRole .admin)).modify i (User.setRole .user) = _
    rw [← mapIdx_onlyAt, ← mapIdx_onlyAt, List.mapIdx_mapIdx]
    rfl

end Follows

/-! ### The footprint of a request -/

/-- The record of the user at `i` and those in some sessions. -/
def Near (i : Nat) (ids : Set Bytes) (k : Nat) (u : User) : Prop := k = i ∨ u.sessionId.bytes ∈ ids

/-- A record that keeps its name, and goes into no session but some. -/
structure Moves (ids : Set Bytes) (u u' : User) : Prop where
  name_eq : u'.name = u.name
  session : u'.sessionId = u.sessionId ∨ u'.sessionId = notInSession ∨ u'.sessionId.bytes ∈ ids
  placed : u.Placed → u'.Placed

section Moves

variable {ids : Set Bytes} {u u' u'' : User} {i k : Nat} {f : User → User}

theorem Moves.refl (ids : Set Bytes) (u : User) : Moves ids u u := ⟨rfl, Or.inl rfl, id⟩

theorem Moves.trans (h : Moves ids u u') (h' : Moves ids u' u'') : Moves ids u u'' := by
  refine ⟨h'.name_eq.trans h.name_eq, ?_, h'.placed ∘ h.placed⟩
  rcases h'.session with hsame | hout
  · rw [hsame]
    exact h.session
  · exact Or.inr hout

private theorem moves_onlyAt (h : Moves ids u (f u)) : Moves ids u (onlyAt i f k u) := by
  unfold onlyAt
  split
  · exact h
  · exact .refl ids u

private theorem moves_exit (ids : Set Bytes) (u : User) : Moves ids u u.exit := ⟨rfl, Or.inl rfl, id⟩

private theorem moves_setRole (ids : Set Bytes) (u : User) (role : Role) :
    Moves ids u (u.setRole role) := ⟨rfl, Or.inl rfl, id⟩

private theorem moves_leave (ids : Set Bytes) (u : User) : Moves ids u u.leave :=
  ⟨rfl, Or.inr (Or.inl rfl), fun _ => placed_of_offline rfl⟩

private theorem moves_kick (ids : Set Bytes) (u : User) : Moves ids u u.kick :=
  ⟨rfl, Or.inr (Or.inl rfl), fun _ => placed_of_offline rfl⟩

private theorem moves_join {id : CStr maxSessionLength} (hmem : id.bytes ∈ ids) (hproper : id ≠ notInSession)
    (u : User) :
    Moves ids u (u.join id) := ⟨rfl, Or.inr (Or.inr hmem), fun _ _ => hproper⟩

private theorem moves_create {id : CStr maxSessionLength} (hmem : id.bytes ∈ ids) (hproper : id ≠ notInSession)
    (u : User) :
    Moves ids u (u.create id) := ⟨rfl, Or.inr (Or.inr hmem), fun _ _ => hproper⟩

private theorem moves_leaving (ids : Set Bytes) (users : List User) (i : Nat) (own : User) (k : Nat) (u : User) :
    Moves ids u (leaving users i own k u) := by
  have hleave : Moves ids u (onlyAt i User.leave k u) := moves_onlyAt (moves_leave ids u)
  unfold leaving
  dsimp only
  split
  · exact hleave.trans (moves_setRole ids _ _)
  · exact hleave

end Moves

section Footprint

variable {users users' : List User} {source : Bytes} {i k : Nat} {own u : User} {q : SessionRequest}
  {f : Nat → User → User}

private theorem plan_moves (hproper : q.asked ≠ some notInSession.bytes) (hf : q.plan i own users = some f) (k : Nat)
    (u : User) :
    Moves (q.touches own) u (f k u) := by
  have hasked : ∀ {data : CStr maxData} {id : CStr maxSessionLength}, q.asked = some data.bytes →
      id.bytes = data.bytes → id.bytes ∈ q.touches own ∧ id ≠ notInSession := by
    intro data id hq hbytes
    refine ⟨Or.inr (hbytes ▸ hq), ?_⟩
    rintro rfl
    exact hproper (hbytes ▸ hq)
  cases q with
  | exit =>
    cases hf
    have hexit := fun u => moves_onlyAt (i := i) (k := k) (moves_exit (SessionRequest.exit.touches own) u)
    dsimp only
    split
    · exact (moves_leaving _ users i own k u).trans (hexit _)
    · exact hexit u
  | join data =>
    cases data with
    | none => cases hf
    | some data =>
      rcases entering_cases hf with rfl | ⟨id, hid, rfl⟩
      · exact .refl _ u
      · obtain ⟨hmem, hne⟩ := hasked rfl hid
        exact moves_onlyAt (moves_join hmem hne u)
  | newSess data =>
    cases data with
    | none => cases hf
    | some data =>
      rcases entering_cases hf with rfl | ⟨id, hid, rfl⟩
      · exact .refl _ u
      · obtain ⟨hmem, hne⟩ := hasked rfl hid
        exact moves_onlyAt (moves_create hmem hne u)
  | leaveSess =>
    cases hf
    exact moves_leaving _ users i own k u
  | kick target =>
    simp only [SessionRequest.plan] at hf
    split at hf
    · cases hf
      exact .refl _ u
    · cases hf
      exact moves_onlyAt (moves_kick _ u)
  | promote target =>
    simp only [SessionRequest.plan] at hf
    split at hf
    · cases hf
      exact .refl _ u
    · cases hf
      exact (moves_onlyAt (moves_setRole _ u .admin)).trans (moves_onlyAt (moves_setRole _ _ .user))

private theorem mem_touches_own (q : SessionRequest) (hin : own.inSession = .online) :
    own.sessionId.bytes ∈ q.touches own :=
  Or.inl (if_pos hin)

/-- The target of a request that is granted is in the session of the requester. -/
private theorem granted_eq_some (hplaced : ∀ u ∈ users, u.Placed) {target : Bytes} {j : Nat} :
    granted users target own = some j ↔ ∃ t, Record users target j t ∧ t.status = .online ∧ t.inSession = .online ∧
      t.sessionId = own.sessionId ∧ own.sessionId ≠ notInSession ∧ t.role = .user := by
  unfold granted
  constructor
  · intro h
    split at h
    · rename_i href
      obtain ⟨j', t, ht, hstatus, hin, hid, hrole⟩ := refusal_eq_none href
      obtain rfl : j' = j := Option.some.inj (ht.found.symm.trans h)
      exact ⟨t, ht, hstatus, hin, hid, hid ▸ hplaced t ht.mem hin, hrole⟩
    · cases h
  · rintro ⟨t, ht, hstatus, hin, hid, -, hrole⟩
    have hfound : databaseSearchUser users target = some j := ht.found
    have href : refusal users target own = none := by
      simp [refusal, hfound, ht.get, hstatus, hin, hid, hrole]
    rw [if_pos href, hfound]

private theorem plan_frame (hown : own.Consistent) (hplaced : ∀ u ∈ users, u.Placed)
    (hmember : q = .leaveSess → own.inSession = .online) (hf : q.plan i own users = some f)
    (hk : users[k]? = some u) (hfar : ¬ Near i (q.touches own) k u) : f k u = u := by
  obtain ⟨hki, hid⟩ := not_or.1 hfar
  have hleaving : own.inSession = .online → leaving users i own k u = u := by
    intro hin
    have hne : ¬ u.sessionId = own.sessionId := fun h => hid (h ▸ mem_touches_own q hin)
    simp [leaving, onlyAt_ne hki, hne]
  have htarget : ∀ {target j}, granted users target own = some j → k ≠ j := by
    rintro target j hj rfl
    obtain ⟨t, ht, -, -, hsame, hne, -⟩ := (granted_eq_some hplaced).1 hj
    obtain rfl : t = u := Option.some.inj (ht.get.symm.trans hk)
    exact hid (hsame ▸ mem_touches_own q (hown.session hne))
  cases q with
  | exit =>
    cases hf
    dsimp only
    rw [onlyAt_ne hki]
    split
    · exact hleaving ‹_›
    · rfl
  | join data =>
    cases data with
    | none => cases hf
    | some data =>
      rcases entering_cases hf with rfl | ⟨id, -, rfl⟩
      · rfl
      · exact onlyAt_ne hki _ u
  | newSess data =>
    cases data with
    | none => cases hf
    | some data =>
      rcases entering_cases hf with rfl | ⟨id, -, rfl⟩
      · rfl
      · exact onlyAt_ne hki _ u
  | leaveSess =>
    cases hf
    exact hleaving (hmember rfl)
  | kick target =>
    simp only [SessionRequest.plan] at hf
    split at hf
    · cases hf
      rfl
    · rename_i j hj
      cases hf
      exact onlyAt_ne (htarget hj) _ u
  | promote target =>
    simp only [SessionRequest.plan] at hf
    split at hf
    · cases hf
      rfl
    · rename_i j hj
      cases hf
      dsimp only
      rw [onlyAt_ne hki, onlyAt_ne (htarget hj)]

/-- A session in the footprint has as many users in both tables. -/
private theorem countInSession_agree {ids : Set Bytes} {id : Bytes} (h : Agree User.name (Near i ids) users users')
    (hid : id ∈ ids) : countInSession users' id = countInSession users id := by
  apply Table.Pointwise.countP_eq h
  intro k u u' hr
  by_cases hu : u.sessionId.bytes = id
  · rw [hr.2 (Or.inl (Or.inr (hu ▸ hid)))]
  · by_cases hu' : u'.sessionId.bytes = id
    · rw [hr.2 (Or.inr (Or.inr (hu' ▸ hid)))]
    · rw [decide_eq_false hu, decide_eq_false hu']

private theorem granted_agree {ids : Set Bytes} (h : Agree User.name (Near i ids) users users')
    (hplaced : ∀ u ∈ users, u.Placed) (hplaced' : ∀ u ∈ users', u.Placed)
    (hid : own.sessionId ≠ notInSession → own.sessionId.bytes ∈ ids) {target : Bytes} {j : Nat}
    (hj : granted users target own = some j) : granted users' target own = some j := by
  obtain ⟨t, ht, hstatus, hin, hsame, hne, hrole⟩ := (granted_eq_some hplaced).1 hj
  obtain ⟨t', ht', -, hkept⟩ := ht.pointwise h fun _ _ _ h => h.1
  obtain rfl : t' = t := hkept (Or.inl (Or.inr (hsame ▸ hid hne)))
  exact (granted_eq_some hplaced').2 ⟨t', ht', hstatus, hin, hsame, hne, hrole⟩

/-- The table has the record of the user, and the flag and the text agree in every record. -/
structure Stands (source : Bytes) (i : Nat) (own : User) (users : List User) : Prop where
  record : Record users source i own
  placed : ∀ u ∈ users, u.Placed

private theorem plan_reads (hown : own.Consistent) (hmember : q = .leaveSess → own.inSession = .online)
    (h : Stands source i own users) (h' : Stands source i own users')
    (hagree : Agree User.name (Near i (q.touches own)) users users') : q.plan i own users' = q.plan i own users := by
  have hleaving : own.inSession = .online → leaving users' i own = leaving users i own := by
    intro hin
    have hcount := countInSession_agree hagree (mem_touches_own q hin)
    have hleave := countInSession_modify h.record.get User.leave own.sessionId.bytes
    have hleave' := countInSession_modify h'.record.get User.leave own.sessionId.bytes
    have hsame : countInSession (users'.modify i User.leave) own.sessionId.bytes =
        countInSession (users.modify i User.leave) own.sessionId.bytes := by
      omega
    funext k u
    simp only [leaving, hsame]
  have hgranted : ∀ target, granted users' target own = granted users target own := by
    intro target
    have hagree' : Agree User.name (Near i (q.touches own)) users' users :=
      Table.Pointwise.mono hagree.symm fun _ _ _ _ h => ⟨h.1.symm, fun hnear => (h.2 hnear.symm).symm⟩
    have hid : own.sessionId ≠ notInSession → own.sessionId.bytes ∈ q.touches own :=
      fun hne => mem_touches_own q (hown.session hne)
    ext j
    exact ⟨granted_agree hagree' h'.placed h.placed hid, granted_agree hagree h.placed h'.placed hid⟩
  cases q with
  | exit =>
    cases hin : own.inSession with
    | offline => simp [SessionRequest.plan, hin]
    | online => simp only [SessionRequest.plan, hleaving hin]
  | join data =>
    cases data with
    | none => rfl
    | some data =>
      have hcount := countInSession_agree hagree (Or.inr rfl)
      have hrefusal : joinRefusal users' own data.bytes = joinRefusal users own data.bytes := by
        simp only [joinRefusal, hcount]
      simp only [SessionRequest.plan, hrefusal]
  | newSess data =>
    cases data with
    | none => rfl
    | some data =>
      have hcount := countInSession_agree hagree (Or.inr rfl)
      simp only [SessionRequest.plan, hcount]
  | leaveSess => simp only [SessionRequest.plan, hleaving (hmember rfl)]
  | kick target => simp only [SessionRequest.plan, hgranted]
  | promote target => simp only [SessionRequest.plan, hgranted]

private theorem confined_plan (hown : own.Consistent) (hmember : q = .leaveSess → own.inSession = .online)
    (hproper : q.asked ≠ some notInSession.bytes) :
    Confined User.name (Stands source i own) (Near i (q.touches own)) (q.plan i own) where
  key_eq _ hf k u _ := (plan_moves hproper hf k u).name_eq
  frame hstands hf _ _ hk hfar := plan_frame hown hstands.placed hmember hf hk hfar
  reads := plan_reads hown hmember

end Footprint

/-! ### Two requests -/

/-- The reserved text is no session. -/
private theorem reserved_not_mem_touches {own : User} {q : SessionRequest} (hplaced : own.Placed)
    (hproper : q.asked ≠ some notInSession.bytes) : notInSession.bytes ∉ q.touches own := by
  rintro (hsession | hasked)
  · unfold User.session at hsession
    split at hsession
    · rename_i hin
      exact hplaced hin (CStr.ext (Option.some.inj hsession))
    · cases hsession
  · exact hproper hasked

/-- Two requests of different users that touch different sessions. -/
structure Independent (i : Nat) (own : User) (q : SessionRequest) (i' : Nat) (own' : User) (q' : SessionRequest) :
    Prop where
  ne : i ≠ i'
  disjoint : Disjoint (q.touches own) (q'.touches own')
  outside : own.sessionId.bytes ∉ q'.touches own'
  outside' : own'.sessionId.bytes ∉ q.touches own

section Two

variable {users : List User} {source source' : Bytes} {i i' : Nat} {own own' : User} {q q' : SessionRequest}

private theorem own_session_not_mem (hown : own.Consistent) (hplaced' : own'.Placed)
    (hproper' : q'.asked ≠ some notInSession.bytes) (hdisjoint : Disjoint (q.touches own) (q'.touches own')) :
    own.sessionId.bytes ∉ q'.touches own' := by
  intro hmem
  by_cases hid : own.sessionId = notInSession
  · exact reserved_not_mem_touches hplaced' hproper' (hid ▸ hmem)
  · exact Set.disjoint_left.1 hdisjoint (mem_touches_own q (hown.session hid)) hmem

namespace Independent

theorem symm (h : Independent i own q i' own' q') : Independent i' own' q' i own q :=
  ⟨h.ne.symm, h.disjoint.symm, h.outside', h.outside⟩

/-- Nothing that one request changes is in the footprint of the other, before or after. -/
private theorem apart (h : Independent i own q i' own' q') (hplaced' : own'.Placed)
    (hproper : q.asked ≠ some notInSession.bytes) (hproper' : q'.asked ≠ some notInSession.bytes)
    (hget : users[i]? = some own) (hget' : users[i']? = some own') :
    Apart (Near i (q.touches own)) (Near i' (q'.touches own')) (q.plan i own) users := by
  intro f hf k u hk hnear
  have hki' : k ≠ i' := by
    rintro rfl
    obtain rfl : u = own' := Option.some.inj (hk.symm.trans hget')
    rcases hnear with rfl | hid
    · exact h.ne rfl
    · exact h.outside' hid
  have hid' : u.sessionId.bytes ∉ q'.touches own' := by
    rcases hnear with rfl | hid
    · obtain rfl : u = own := Option.some.inj (hk.symm.trans hget)
      exact h.outside
    · exact Set.disjoint_left.1 h.disjoint hid
  refine ⟨not_or.2 ⟨hki', hid'⟩, not_or.2 ⟨hki', ?_⟩⟩
  rcases (plan_moves hproper hf k u).session with hsame | hout | hid
  · rw [hsame]
    exact hid'
  · rw [hout]
    exact reserved_not_mem_touches hplaced' hproper'
  · exact Set.disjoint_left.1 h.disjoint hid

/-- The other user keeps its record. -/
private theorem stands (h : Independent i own q i' own' q') (hown : own.Consistent)
    (hmember : q = .leaveSess → own.inSession = .online) (hproper : q.asked ≠ some notInSession.bytes)
    (hstands : Stands source' i' own' users) {f : Nat → User → User} (hf : q.plan i own users = some f) :
    Stands source' i' own' (users.mapIdx f) := by
  have hchange : Table.Pointwise (fun k u u' => Moves (q.touches own) u u' ∧
      (¬ Near i (q.touches own) k u → u' = u)) users (users.mapIdx f) :=
    .mapIdx fun k u hk => ⟨plan_moves hproper hf k u, plan_frame hown hstands.placed hmember hf hk⟩
  refine ⟨?_, fun u' hu' => ?_⟩
  · obtain ⟨v, hv, -, hkept⟩ := hstands.record.pointwise hchange fun _ _ _ h => h.1.name_eq
    obtain rfl : v = own' := hkept (not_or.2 ⟨h.ne.symm, h.outside'⟩)
    exact hv
  · obtain ⟨k, u, hk, hmoves, -⟩ := hchange.of_mem hu'
    exact hmoves.placed (hstands.placed u (List.mem_of_getElem? hk))

end Independent

end Two

/-! ### Serving two requests -/

/-- A connection whose name has the record `own` sends the request `q` in the text `chunk`. -/
structure Sends (s : ServerState) (socketFd : Nat) (conn : Conn) (chunk : Bytes) (own : User) (q : SessionRequest) :
    Prop where
  running : s.conns socketFd = .running conn
  record : ownRecord s.world.mem.users conn.source.bytes = some own
  request : ((decode (recvBuffer chunk)).bind fun p => sessionRequest p.1) = some q
  member : q = .leaveSess → own.inSession = .online
  proper : q.asked ≠ some notInSession.bytes

/-- Serving the text changes the table as planned. -/
def Performs (s : ServerState) (socketFd : Nat) (chunk : Bytes) (p : Plan User) : Prop :=
  match p s.world.mem.users with
  | none => s.next (.recv socketFd chunk) = none
  | some f => ∃ t, s.next (.recv socketFd chunk) = some t ∧ t.world.mem.users = s.world.mem.users.mapIdx f ∧
      t.world.held = s.world.held ∧ ∀ fd, fd ≠ socketFd → t.conns fd = s.conns fd

section Serving

variable {s : ServerState} {socketFd socketFd' : Nat} {conn : Conn} {chunk chunk' : Bytes} {own : User}
  {q : SessionRequest} {i : Nat} {p p' : Plan User}

private theorem next_recv (hconn : s.conns socketFd = .running conn)
    (hlen : 0 < chunk.length ∧ chunk.length ≤ maximumBufferSize) :
    s.next (.recv socketFd chunk) = s.after socketFd (serve socketFd conn chunk s.clear) := by
  simp only [ServerState.next, hconn, if_pos hlen]

/-- `recv` returns one byte at least, and what fits the buffer. -/
private theorem next_recv_none (hlen : ¬ (0 < chunk.length ∧ chunk.length ≤ maximumBufferSize)) (s : ServerState)
    (socketFd : Nat) : s.next (.recv socketFd chunk) = none := by
  simp only [ServerState.next, if_neg hlen]
  split
  · rfl
  · rfl

private theorem performs_of_follows (h : Sends s socketFd conn chunk own q)
    (hlen : 0 < chunk.length ∧ chunk.length ≤ maximumBufferSize)
    (hfollows : Follows (q.handle conn.source s.clear) s.clear (p s.world.mem.users)) :
    Performs s socketFd chunk p := by
  obtain ⟨⟨received, claimed⟩, hdec, hq⟩ := Option.bind_eq_some_iff.1 h.request
  have hnext := next_recv h.running hlen
  rw [serve_request hdec hq] at hnext
  unfold Performs
  cases hp : p s.world.mem.users with
  | none =>
    rw [hp] at hfollows
    rw [hnext, show q.handle conn.source s.clear = .fault from hfollows]
    rfl
  | some f =>
    rw [hp] at hfollows
    obtain ⟨w, hrun, husers, hheld⟩ := hfollows
    have hother : ∀ slot, ∀ fd, fd ≠ socketFd → (s.setConn socketFd w slot).conns fd = s.conns fd := by
      intro slot fd hfd
      change Function.update s.conns socketFd slot fd = s.conns fd
      exact Function.update_of_ne hfd _ _
    have hafter : ∃ slot, s.next (.recv socketFd chunk) = some (s.setConn socketFd w slot) := by
      rcases hrun with hrun | hrun
      · rw [hnext, hrun]
        cases hkeeps : q.keeps conn with
        | none => exact ⟨.closed, rfl⟩
        | some conn' => exact ⟨.running conn', rfl⟩
      · rw [hnext, hrun]
        exact ⟨.stuck, rfl⟩
    obtain ⟨slot, hslot⟩ := hafter
    exact ⟨_, hslot, husers, hheld, hother slot⟩

/-- With both mutexes free a request is served as planned. -/
private theorem performs_plan (h : Sends s socketFd conn chunk own q)
    (hlen : 0 < chunk.length ∧ chunk.length ≤ maximumBufferSize) (hul : s.world.held .userList = false)
    (hrw : RwFree s.world) (hstands : Stands conn.source.bytes i own s.world.mem.users) :
    Performs s socketFd chunk (q.plan i own) := by
  apply performs_of_follows h hlen
  have hrec : Record s.clear.mem.users conn.source.bytes i own := hstands.record
  have hplaced := hstands.placed own hstands.record.mem
  cases q with
  | exit => exact follows_exit hrec hul hrw hplaced
  | join data => exact follows_join hrec hul hrw data
  | newSess data => exact follows_newSess hrec hul hrw data
  | leaveSess => exact follows_leaveSess hrec hul hrw hplaced (h.member rfl)
  | kick target => exact follows_kick hrec hul target
  | promote target => exact follows_promote hrec hul target

/-- The tables after two requests. -/
private theorem two_requests (h : Performs s socketFd chunk p)
    (h' : ∀ t f, p s.world.mem.users = some f → t.world.mem.users = s.world.mem.users.mapIdx f →
      t.world.held = s.world.held → (∀ fd, fd ≠ socketFd → t.conns fd = s.conns fd) →
      Performs t socketFd' chunk' p') :
    ((s.next (.recv socketFd chunk)).bind fun t => t.next (.recv socketFd' chunk')).map (·.world.mem.users) =
      (p.run s.world.mem.users).bind p'.run := by
  unfold Performs at h
  cases hp : p s.world.mem.users with
  | none =>
    rw [hp] at h
    rw [show s.next (.recv socketFd chunk) = none from h, Plan.run, hp]
    rfl
  | some f =>
    rw [hp] at h
    obtain ⟨t, hnext, husers, hheld, hconns⟩ := h
    have hsecond := h' t f hp husers hheld hconns
    unfold Performs at hsecond
    rw [husers] at hsecond
    simp only [hnext, Option.bind_some, Plan.run, hp, Option.map_some]
    cases hp' : p' (s.world.mem.users.mapIdx f) with
    | none =>
      rw [hp'] at hsecond
      rw [show t.next (.recv socketFd' chunk') = none from hsecond]
      rfl
    | some f' =>
      rw [hp'] at hsecond
      obtain ⟨t', hnext', husers', -⟩ := hsecond
      rw [hnext', Option.map_some, husers']
      rfl

private theorem waiting_eq_some {users : List User} {f : Nat → User → User} (hf : q.waiting users = some f) :
    f = fun _ u => u := by
  unfold SessionRequest.waiting at hf
  split at hf
  · cases hf
  · cases hf
  · cases hf
    rfl

private theorem confined_waiting (q : SessionRequest) :
    Confined User.name (fun _ => True) (fun _ _ => False) q.waiting where
  key_eq _ hf _ _ _ := by rw [waiting_eq_some hf]
  frame _ hf _ _ _ _ := by rw [waiting_eq_some hf]
  reads := by
    intro users users' _ _ _
    unfold SessionRequest.waiting
    split
    · rfl
    · rfl
    · rfl

private theorem waiting_commute (users : List User) (q q' : SessionRequest) :
    (q.waiting.run users).bind q'.waiting.run = (q'.waiting.run users).bind q.waiting.run :=
  (confined_waiting q).commute (confined_waiting q') trivial trivial (fun _ _ => trivial) (fun _ _ => trivial)
    (fun _ _ _ _ _ h => h.elim) (fun _ _ _ _ _ h => h.elim)

variable {conn' : Conn} {own' : User} {q' : SessionRequest} {i' : Nat}

/-- The second request comes as it would have come first. -/
theorem Sends.after {t : ServerState} (h : Sends s socketFd conn chunk own q) (hfd : socketFd ≠ socketFd')
    (hconns : ∀ fd, fd ≠ socketFd' → t.conns fd = s.conns fd) (hrec : Record t.world.mem.users conn.source.bytes i own) :
    Sends t socketFd conn chunk own q where
  running := (hconns _ hfd).trans h.running
  record := ownRecord_eq hrec
  request := h.request
  member := h.member
  proper := h.proper

private theorem serve_waiting (hul : s.world.held .userList = true) (h : Sends s socketFd conn chunk own q)
    (h' : Sends s socketFd' conn' chunk' own' q') (hfd : socketFd' ≠ socketFd)
    (hlen : 0 < chunk.length ∧ chunk.length ≤ maximumBufferSize)
    (hlen' : 0 < chunk'.length ∧ chunk'.length ≤ maximumBufferSize) :
    ((s.next (.recv socketFd chunk)).bind fun t => t.next (.recv socketFd' chunk')).map (·.world.mem.users) =
      (q.waiting.run s.world.mem.users).bind q'.waiting.run := by
  obtain ⟨i, hrec⟩ := record_of_ownRecord h.record
  obtain ⟨i', hrec'⟩ := record_of_ownRecord h'.record
  apply two_requests (performs_of_follows h hlen (follows_waiting (w := s.clear) hrec hul q))
  intro t f hf husers hheld hconns
  have hsame : t.world.mem.users = s.world.mem.users := by
    rw [husers, waiting_eq_some hf, mapIdx_same]
  have hrec'' : Record t.world.mem.users conn'.source.bytes i' own' := hsame ▸ hrec'
  have hul' : t.world.held .userList = true := hheld ▸ hul
  exact performs_of_follows (h'.after hfd hconns hrec'') hlen' (follows_waiting (w := t.clear) hrec'' hul' q')

private theorem serve_free (hul : s.world.held .userList = false) (hrw : RwFree s.world)
    (h : Sends s socketFd conn chunk own q)
    (h' : Sends s socketFd' conn' chunk' own' q') (hfd : socketFd' ≠ socketFd)
    (hlen : 0 < chunk.length ∧ chunk.length ≤ maximumBufferSize)
    (hlen' : 0 < chunk'.length ∧ chunk'.length ≤ maximumBufferSize)
    (hstands : Stands conn.source.bytes i own s.world.mem.users)
    (hkept : ∀ f, q.plan i own s.world.mem.users = some f →
      Stands conn'.source.bytes i' own' (s.world.mem.users.mapIdx f)) :
    ((s.next (.recv socketFd chunk)).bind fun t => t.next (.recv socketFd' chunk')).map (·.world.mem.users) =
      ((q.plan i own).run s.world.mem.users).bind (q'.plan i' own').run := by
  apply two_requests (performs_plan h hlen hul hrw hstands)
  intro t f hf husers hheld hconns
  have hstands' : Stands conn'.source.bytes i' own' t.world.mem.users := husers ▸ hkept f hf
  have hul' : t.world.held .userList = false := hheld ▸ hul
  have hrw' : RwFree t.world := (congrFun hheld .rw).trans hrw
  exact performs_plan (h'.after hfd hconns hstands'.record) hlen' hul' hrw' hstands'

end Serving

/-- Requests in different sessions commute.  In every run in which no request takes the reserved text as the name of a
session, two requests of different users that touch different sessions, one served after the other, end in the same
table in either order. -/
theorem sessions_commute {s : ServerState} (hr : Reachable (server.when ReservedFree) s) {fd₁ fd₂ : Nat}
    {conn₁ conn₂ : Conn} {chunk₁ chunk₂ : Bytes} {own₁ own₂ : User} {q₁ q₂ : SessionRequest}
    (h₁ : Sends s fd₁ conn₁ chunk₁ own₁ q₁) (h₂ : Sends s fd₂ conn₂ chunk₂ own₂ q₂)
    (hne : conn₁.source ≠ conn₂.source) (hdisjoint : Disjoint (q₁.touches own₁) (q₂.touches own₂)) :
    ((s.next (.recv fd₁ chunk₁)).bind fun t => t.next (.recv fd₂ chunk₂)).map (·.world.mem.users) =
      ((s.next (.recv fd₂ chunk₂)).bind fun t => t.next (.recv fd₁ chunk₁)).map (·.world.mem.users) := by
  have hfd : fd₁ ≠ fd₂ := by
    rintro rfl
    have hconn : conn₁ = conn₂ := by simpa using h₁.running.symm.trans h₂.running
    exact hne (congrArg Conn.source hconn)
  -- a text that does not arrive is not served in either order
  by_cases hlen₁ : 0 < chunk₁.length ∧ chunk₁.length ≤ maximumBufferSize
  swap
  · simp only [next_recv_none hlen₁]
    simp
  by_cases hlen₂ : 0 < chunk₂.length ∧ chunk₂.length ≤ maximumBufferSize
  swap
  · simp only [next_recv_none hlen₂]
    simp
  cases hul : s.world.held .userList with
  | true =>
    rw [serve_waiting hul h₁ h₂ hfd.symm hlen₁ hlen₂, serve_waiting hul h₂ h₁ hfd hlen₂ hlen₁]
    exact waiting_commute _ q₁ q₂
  | false =>
    have hplaced := placed_of_reachable hr
    have hrw := rwFree_of_reachable hr
    have hconsistent := consistent_of_reachable hr.of_when
    obtain ⟨i₁, hrec₁⟩ := record_of_ownRecord h₁.record
    obtain ⟨i₂, hrec₂⟩ := record_of_ownRecord h₂.record
    have hown₁ := hconsistent own₁ hrec₁.mem
    have hown₂ := hconsistent own₂ hrec₂.mem
    have hplaced₁ := hplaced own₁ hrec₁.mem
    have hplaced₂ := hplaced own₂ hrec₂.mem
    have hstands₁ : Stands conn₁.source.bytes i₁ own₁ s.world.mem.users := ⟨hrec₁, hplaced⟩
    have hstands₂ : Stands conn₂.source.bytes i₂ own₂ s.world.mem.users := ⟨hrec₂, hplaced⟩
    have hindep : Independent i₁ own₁ q₁ i₂ own₂ q₂ :=
      ⟨hrec₁.ne hrec₂ fun h => hne (CStr.ext h), hdisjoint, own_session_not_mem hown₁ hplaced₂ h₂.proper hdisjoint,
        own_session_not_mem hown₂ hplaced₁ h₁.proper hdisjoint.symm⟩
    have hkept₁ := fun f hf => hindep.stands (f := f) hown₁ h₁.member h₁.proper hstands₂ hf
    have hkept₂ := fun f hf => hindep.symm.stands (f := f) hown₂ h₂.member h₂.proper hstands₁ hf
    rw [serve_free hul hrw h₁ h₂ hfd.symm hlen₁ hlen₂ hstands₁ hkept₁,
      serve_free hul hrw h₂ h₁ hfd hlen₂ hlen₁ hstands₂ hkept₂]
    exact (confined_plan hown₁ h₁.member h₁.proper).commute (confined_plan hown₂ h₂.member h₂.proper) hstands₁ hstands₂
      hkept₁ hkept₂ (hindep.apart hplaced₂ h₁.proper h₂.proper hrec₁.get hrec₂.get)
      (hindep.symm.apart hplaced₁ h₂.proper h₁.proper hrec₂.get hrec₁.get)

/-- `ann` and `bob` are in sessions of their own. -/
def twoSessions : List Event :=
  [.accept 3 serverName, .recv 3 (ascii "13:1:ann:x"), .recv 3 (ascii "8:1:ann:s"), .accept 4 serverName,
    .recv 4 (ascii "13:1:bob:x"), .recv 4 (ascii "8:1:bob:t")]

/-- `ann` leaves its session, `bob` ends its connection. -/
theorem sessions_commute_two : ∃ s, afterEventsWhen ReservedFree twoSessions = some s ∧
    ((s.next (.recv 3 (ascii "7:0:ann:"))).bind fun t => t.next (.recv 4 (ascii "3:0:bob:"))).map
        (·.world.mem.users) =
      ((s.next (.recv 4 (ascii "3:0:bob:"))).bind fun t => t.next (.recv 3 (ascii "7:0:ann:"))).map
        (·.world.mem.users) := by
  let ann : CStr maxName := ⟨ascii "ann", by decide, by decide⟩
  let bob : CStr maxName := ⟨ascii "bob", by decide, by decide⟩
  let own₁ := (registeredUser ann ⟨ascii "x", by decide, by decide⟩ 3).create ⟨ascii "s", by decide, by decide⟩
  let own₂ := (registeredUser bob ⟨ascii "x", by decide, by decide⟩ 4).create ⟨ascii "t", by decide, by decide⟩
  obtain ⟨s, hs⟩ : ∃ s, afterEventsWhen ReservedFree twoSessions = some s := Option.isSome_iff_exists.1 (by decide)
  have hstate : (afterEventsWhen ReservedFree twoSessions).map (fun s => ((s.conns 3, s.conns 4),
      ownRecord s.world.mem.users ann.bytes, ownRecord s.world.mem.users bob.bytes)) =
      some ((.running ⟨ann, .online⟩, .running ⟨bob, .online⟩), some own₁, some own₂) := by decide
  rw [hs, Option.map_some, Option.some.injEq, Prod.mk.injEq, Prod.mk.injEq, Prod.mk.injEq] at hstate
  obtain ⟨⟨hconn₁, hconn₂⟩, hown₁, hown₂⟩ := hstate
  have h₁ : Sends s 3 ⟨ann, .online⟩ (ascii "7:0:ann:") own₁ .leaveSess :=
    ⟨hconn₁, hown₁, by decide, fun _ => rfl, by decide⟩
  have h₂ : Sends s 4 ⟨bob, .online⟩ (ascii "3:0:bob:") own₂ .exit :=
    ⟨hconn₂, hown₂, by decide, fun h => absurd h (by decide), by decide⟩
  have hdisjoint : Disjoint (SessionRequest.leaveSess.touches own₁) (SessionRequest.exit.touches own₂) := by
    apply Set.disjoint_left.2
    rintro id (hid | hid) (hid' | hid')
    · exact absurd (Option.some.inj (hid.trans hid'.symm)) (by decide)
    · cases hid'
    · cases hid
    · cases hid
  exact ⟨s, hs, sessions_commute (reachable_afterEventsWhen hs) h₁ h₂ (by decide) hdisjoint⟩

end Conferencing
