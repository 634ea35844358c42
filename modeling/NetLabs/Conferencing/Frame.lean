import NetLabs.Conferencing.Notices

/-!
# The records that a request touches

`Touched` says for each record of the table what serving one message can do to it, and under which condition; the other
records stay as they are.  A request that is refused changes no record, no account and not the file, and the others
change the record of the requester, of the target, and the role of the last member of a session that has been left
(`request_frame`).
-/

namespace Conferencing

open CText LockProg Transition

/-! ### Leaving -/

/-- The record `u` at `k` is the one that remains when the user `name` leaves its session. -/
def Remains (users : List User) (name : Bytes) (k : Nat) (u : User) : Prop :=
  ∃ i own, Record users name i own ∧ own.inSession = .online ∧ own.sessionId ≠ notInSession ∧ k ≠ i ∧
    u.sessionId = own.sessionId ∧ countInSession users own.sessionId.bytes = 2

/-- What happens to the record `u` at `k` when the user `name` leaves its session. -/
inductive Leaves (users : List User) (name : Bytes) (k : Nat) (u : User) : User → Prop
  | same (hne : databaseSearchUser users name ≠ some k) : Leaves users name k u u
  | own (hrec : Record users name k u) (hin : u.inSession = .online) (hid : u.sessionId ≠ notInSession) :
      Leaves users name k u u.leave
  | last (h : Remains users name k u) : Leaves users name k u (u.setRole .admin)

/-- What happens to the record `u` at `k` when the thread of the user `name` ends. -/
inductive Quits (users : List User) (name : Bytes) (k : Nat) (u : User) : User → Prop
  | same (hne : databaseSearchUser users name ≠ some k) : Quits users name k u u
  | out (hrec : Record users name k u) (hout : u.inSession = .offline ∨ u.sessionId = notInSession) :
      Quits users name k u u.exit
  | own (hrec : Record users name k u) (hin : u.inSession = .online) (hid : u.sessionId ≠ notInSession) :
      Quits users name k u u.leave.exit
  | last (h : Remains users name k u) : Quits users name k u (u.setRole .admin)

section Leave

variable {users : List User} {name : Bytes} {i : Nat} {own : User}

/-- The loop of `set_the_only_user_admin` on one record. -/
private theorem onlyUserAdmin_record (users : List User) (sessionId : Bytes) :
    Table.Pointwise (fun _ u u' => u' = u ∨ u.sessionId.bytes = sessionId ∧ u' = u.setRole .admin) users
      (onlyUserAdmin users sessionId) := by
  refine .map fun k u _ => ?_
  split
  · rename_i hid
    split
    · exact Or.inr ⟨hid, rfl⟩
    · exact Or.inl rfl
  · exact Or.inl rfl

theorem leaves_leftTable (hrec : Record users name i own) (hin : own.inSession = .online)
    (hid : own.sessionId ≠ notInSession) :
    Table.Pointwise (Leaves users name) users (leftTable users i own.sessionId.bytes) := by
  have hother : ∀ k, k ≠ i → databaseSearchUser users name ≠ some k := by
    intro k hk hfound
    exact hk (Option.some.inj (hfound.symm.trans hrec.found))
  have hleave : Table.Pointwise (fun k u u' => k = i ∧ u = own ∧ u' = u.leave ∨ k ≠ i ∧ u' = u) users
      (users.modify i User.leave) :=
    .modify hrec.get (Or.inl ⟨rfl, rfl, rfl⟩) fun k u _ hk => Or.inr ⟨hk, rfl⟩
  unfold leftTable
  dsimp only
  split
  · rename_i hone
    refine (hleave.comp (onlyUserAdmin_record _ _)).mono ?_
    intro k u u' _ h
    obtain ⟨v, ⟨rfl, rfl, rfl⟩ | ⟨hk, rfl⟩, hv⟩ := h
    · rcases hv with rfl | ⟨hsame, -⟩
      · exact .own hrec hin hid
      · exact absurd (CStr.ext hsame).symm hid
    · rcases hv with rfl | ⟨hsame, rfl⟩
      · exact .same (hother k hk)
      · refine .last ⟨i, own, hrec, hin, hid, hk, CStr.ext hsame, ?_⟩
        have hcount : countInSession (users.modify i User.leave) own.sessionId.bytes + 1 =
            countInSession users own.sessionId.bytes + 0 := by
          have hne : ¬ notInSession.bytes = own.sessionId.bytes := fun h => hid (CStr.ext h.symm)
          have := Table.countP_modify (p := fun u => u.sessionId.bytes = own.sessionId.bytes) (f := User.leave) hrec.get
          simpa [countInSession, User.leave, hne] using this
        omega
  · apply hleave.mono
    intro k u u' _ h
    rcases h with ⟨rfl, rfl, rfl⟩ | ⟨hk, rfl⟩
    · exact .own hrec hin hid
    · exact .same (hother k hk)

theorem Exits.quits {m m' : Memory} (h : Exits m name m') : Table.Pointwise (Quits m.users name) m.users m'.users := by
  have hother : ∀ {i u}, Record m.users name i u → ∀ k, k ≠ i → databaseSearchUser m.users name ≠ some k := by
    intro i u hrec k hk hfound
    exact hk (Option.some.inj (hfound.symm.trans hrec.found))
  cases h with
  | out hrec hin => exact .modify hrec.get (.out hrec (Or.inl hin)) fun k u _ hk => .same (hother hrec k hk)
  | reserved hrec _ hid => exact .modify hrec.get (.out hrec (Or.inr hid)) fun k u _ hk => .same (hother hrec k hk)
  | @leaving i own hrec hin hid =>
    have hleft := leaves_leftTable hrec hin hid
    obtain ⟨v, hv, -⟩ := hleft.get i own hrec.get
    have hexit : Table.Pointwise (fun k u u' => k = i ∧ u' = u.exit ∨ k ≠ i ∧ u' = u)
        (leftTable m.users i own.sessionId.bytes) ((leftTable m.users i own.sessionId.bytes).modify i User.exit) :=
      .modify hv (Or.inl ⟨rfl, rfl⟩) fun k u _ hk => Or.inr ⟨hk, rfl⟩
    refine (hleft.comp hexit).mono ?_
    intro k u u' hk h
    obtain ⟨w, hw, ⟨rfl, rfl⟩ | ⟨hki, rfl⟩⟩ := h
    · cases hw with
      | same hne => exact absurd hrec.found hne
      | own hrec hin hid => exact .own hrec hin hid
      | last h =>
        obtain ⟨j, other, hrec', -, -, hne, -⟩ := h
        exact absurd (hrec.unique hrec').1 hne
    · cases hw with
      | same hne => exact .same hne
      | own hrec' _ _ => exact absurd (hrec'.unique hrec).1 hki
      | last h => exact .last h

end Leave

/-! ### Every request -/

/-- What serving the message `received`, claiming to come from `claimed`, can do to the record `u` at `k`. -/
inductive Touched (users : List User) (socketFd : Nat) (conn : Conn) (received : Message) (claimed : CStr maxName)
    (k : Nat) (u : User) : User → Prop
  | same : Touched users socketFd conn received claimed k u u
  | login (htype : received.type = MsgType.login) (hrec : Record users claimed.bytes k u) (hoff : u.status = .offline) :
      Touched users socketFd conn received claimed k u (u.login .online socketFd)
  | exit {u' : User} (htype : received.type = MsgType.exit) (h : Quits users conn.source.bytes k u u') :
      Touched users socketFd conn received claimed k u u'
  | create {id : CStr maxSessionLength} (htype : received.type = MsgType.newSess)
      (hrec : Record users conn.source.bytes k u) (hid : id.bytes = cstr received.data.bytes)
      (hcount : countInSession users id.bytes = 0) :
      Touched users socketFd conn received claimed k u (u.create id)
  | join {id : CStr maxSessionLength} (htype : received.type = MsgType.join)
      (hrec : Record users conn.source.bytes k u) (hid : id.bytes = cstr received.data.bytes)
      (href : joinRefusal users u id.bytes = none) :
      Touched users socketFd conn received claimed k u (u.join id)
  | leave {u' : User} (htype : received.type = MsgType.leaveSess) (h : Leaves users conn.source.bytes k u u') :
      Touched users socketFd conn received claimed k u u'
  | kick {i : Nat} {own : User} (htype : received.type = MsgType.kick) (hown : Record users conn.source.bytes i own)
      (hrec : Record users (cstr received.data.bytes) k u) (href : refusal users (cstr received.data.bytes) own = none) :
      Touched users socketFd conn received claimed k u u.kick
  | promote {i : Nat} {own : User} (htype : received.type = MsgType.promote)
      (hown : Record users conn.source.bytes i own) (hrec : Record users (cstr received.data.bytes) k u)
      (href : refusal users (cstr received.data.bytes) own = none) :
      Touched users socketFd conn received claimed k u (u.setRole .admin)
  | demote (htype : received.type = MsgType.promote) (hrec : Record users conn.source.bytes k u)
      (href : refusal users (cstr received.data.bytes) u = none) :
      Touched users socketFd conn received claimed k u (u.setRole .user)

section Touched

variable {socketFd : Nat} {conn : Conn} {received : Message} {claimed : CStr maxName} {m m' : Memory}
  {r : Option Conn}

/-- Serving a message touches the records of the table, or appends one that is registered. -/
theorem Served.touched (h : Served socketFd conn received claimed m r m') :
    Table.Pointwise (Touched m.users socketFd conn received claimed) m.users m'.users ∨
      received.type = MsgType.create ∧ ∃ password, m'.users = m.users ++ [registeredUser claimed password socketFd] := by
  have hrefl : Table.Pointwise (Touched m.users socketFd conn received claimed) m.users m.users :=
    .refl fun _ _ _ => .same
  have hid : ∀ {sessionId : CStr maxData} {id : CStr maxSessionLength}, received.data.text? = some sessionId →
      sessionId.copy? maxSessionLength = some id → id.bytes = cstr received.data.bytes ∧ sessionId.bytes = id.bytes := by
    intro sessionId id hdata hid
    have hbytes := CStr.ofBytes?_eq_some.1 hid
    exact ⟨hbytes.trans (CArray.cstr_of_text? hdata).symm, hbytes.symm⟩
  cases h with
  | answered _ _ _ => exact Or.inl hrefl
  | echoed _ => exact Or.inl hrefl
  | loggedIn htype hrec hoff => exact Or.inl (.modify hrec.get (.login htype hrec hoff) fun _ _ _ _ => .same)
  | @registered password htype _ _ _ => exact Or.inr ⟨htype, password, rfl⟩
  | exited htype hx => exact Or.inl (hx.quits.mono fun _ _ _ _ h => .exit htype h)
  | created htype hdata hrec hcopy hcount =>
    obtain ⟨hbytes, hsame⟩ := hid hdata hcopy
    exact Or.inl (.modify hrec.get (.create htype hrec hbytes (hsame ▸ hcount)) fun _ _ _ _ => .same)
  | joined htype hdata hrec hcopy href =>
    obtain ⟨hbytes, hsame⟩ := hid hdata hcopy
    exact Or.inl (.modify hrec.get (.join htype hrec hbytes (hsame ▸ href)) fun _ _ _ _ => .same)
  | leftOut _ _ _ => exact Or.inl hrefl
  | leftReserved _ _ _ _ => exact Or.inl hrefl
  | left htype hrec hin hid => exact Or.inl ((leaves_leftTable hrec hin hid).mono fun _ _ _ _ h => .leave htype h)
  | relayed _ _ _ => exact Or.inl hrefl
  | kicked htype hrec ht href => exact Or.inl (.modify ht.get (.kick htype hrec ht href) fun _ _ _ _ => .same)
  | @promoted i j own t htype hrec ht href =>
    left
    have hpromote : Table.Pointwise (fun k u u' => k = j ∧ u = t ∧ u' = u.setRole .admin ∨ k ≠ j ∧ u' = u) m.users
        (m.users.modify j (User.setRole .admin)) :=
      .modify ht.get (Or.inl ⟨rfl, rfl, rfl⟩) fun _ _ _ hk => Or.inr ⟨hk, rfl⟩
    obtain ⟨v, hv, -⟩ := hpromote.get i own hrec.get
    have hdemote : Table.Pointwise (fun k u u' => k = i ∧ u' = u.setRole .user ∨ k ≠ i ∧ u' = u)
        (m.users.modify j (User.setRole .admin))
        ((m.users.modify j (User.setRole .admin)).modify i (User.setRole .user)) :=
      .modify hv (Or.inl ⟨rfl, rfl⟩) fun _ _ _ hk => Or.inr ⟨hk, rfl⟩
    refine (hpromote.comp hdemote).mono ?_
    intro k u u' hk h
    obtain ⟨w, hw, hu'⟩ := h
    rcases hu' with ⟨rfl, rfl⟩ | ⟨hki, rfl⟩
    · obtain rfl : own = u := Option.some.inj (hrec.get.symm.trans hk)
      -- a user that promotes itself is demoted again
      have hsame : w.setRole .user = own.setRole .user := by
        rcases hw with ⟨-, -, rfl⟩ | ⟨-, rfl⟩ <;> rfl
      rw [hsame]
      exact .demote htype hrec href
    · rcases hw with ⟨rfl, rfl, rfl⟩ | ⟨-, rfl⟩
      · exact .promote htype hrec ht href
      · exact .same

end Touched

/-- A property of records that a new account has, and that no request and no end of a thread takes away, is kept by an
event. -/
theorem Turn.forall_users {s t : ServerState} {e : Event} (hturn : Turn s e t) {P : User → Prop}
    (h : ∀ u ∈ s.world.mem.users, P u)
    (hregistered : ∀ socketFd chunk received claimed password, e = .recv socketFd chunk →
      decode (recvBuffer chunk) = some (received, claimed) → received.type = MsgType.create →
      P (registeredUser claimed password socketFd))
    (htouched : ∀ socketFd chunk conn received claimed r w k u u', e = .recv socketFd chunk →
      s.conns socketFd = .running conn → decode (recvBuffer chunk) = some (received, claimed) →
      serve socketFd conn chunk s.clear = .ret r w → s.world.mem.users[k]? = some u →
      Touched s.world.mem.users socketFd conn received claimed k u u' → P u → P u')
    (hquits : ∀ name k u u', s.world.mem.users[k]? = some u → Quits s.world.mem.users name k u u' → P u → P u') :
    ∀ u ∈ t.world.mem.users, P u := by
  have hwaits : ∀ {w : World Mutex Memory}, w.mem = s.clear.mem → ∀ u ∈ w.mem.users, P u := by
    intro w hmem
    rw [hmem]
    exact h
  cases hturn with
  | accepted _ _ => exact h
  | @served socketFd chunk conn received claimed r w hconn hdec hrun hserved =>
    intro u' hu'
    rcases hserved.touched with hall | ⟨htype, password, hnew⟩
    · obtain ⟨k, u, hk, htouch⟩ := hall.of_mem hu'
      exact htouched _ _ _ _ _ _ _ k u u' rfl hconn hdec hrun hk htouch (h u (List.mem_of_getElem? hk))
    · change u' ∈ w.mem.users at hu'
      rw [hnew] at hu'
      rcases List.mem_append.1 hu' with hu' | hu'
      · exact h u' hu'
      · rw [List.mem_singleton.1 hu']
        exact hregistered _ _ _ _ _ rfl hdec htype
  | recvWaits _ _ hmem => exact hwaits hmem
  | disconnected _ _ hserved =>
    rcases hserved with ⟨-, hmem⟩ | ⟨-, hx⟩
    · exact hwaits hmem
    · intro u' hu'
      obtain ⟨k, u, hk, hquit⟩ := hx.quits.of_mem hu'
      exact hquits _ k u u' hk hquit (h u (List.mem_of_getElem? hk))
  | disconnectWaits _ _ hmem => exact hwaits hmem

/-! ### Refusals -/

/-- The replies that refuse a request. -/
def refusals : List UInt32 :=
  [MsgType.loNak, MsgType.rgNak, MsgType.jnNak, MsgType.newSess, MsgType.kiNak, MsgType.pmNak, MsgType.sqNak]

/-- The replies and notices of the requests that are granted. -/
def grants : List UInt32 :=
  [MsgType.loAck, MsgType.rgAck, MsgType.jnAck, MsgType.nsAck, MsgType.kiAck, MsgType.kiMessage, MsgType.pmAck,
    MsgType.pmMessage]

private theorem not_mem_refusals {type : UInt32} (h : type ∈ grants) : type ∉ refusals := by
  simp only [grants, List.mem_cons, List.not_mem_nil, or_false] at h
  rcases h with rfl | rfl | rfl | rfl | rfl | rfl | rfl | rfl <;> decide

/-- Every message that has been sent is a grant. -/
def Granted (m : Memory) : Prop := ∀ p ∈ m.outbox, ∃ type ∈ grants, typeOf p.2 = some type

/-- A refusal has been sent. -/
def Refused (m : Memory) : Prop := ∃ p ∈ m.outbox, ∃ type ∈ refusals, typeOf p.2 = some type

theorem Granted.not_refused {m : Memory} (h : Granted m) : ¬ Refused m := by
  rintro ⟨p, hp, type, htype, hread⟩
  obtain ⟨type', htype', hread'⟩ := h p hp
  obtain rfl : type' = type := Option.some.inj (hread'.symm.trans hread)
  exact not_mem_refusals htype' htype

section Granted

variable {m : Memory}

theorem Granted.congr (h : Granted m) {m' : Memory} (heq : m'.outbox = m.outbox) : Granted m' := by
  unfold Granted
  rw [heq]
  exact h

theorem Granted.sent (h : Granted m) {type : UInt32} (htype : type ∈ grants) (fd : Nat) {source : CStr maxName}
    (hcolon : colon ∉ source.bytes) (data : Option (CStr maxData)) : Granted (m.sent fd (wireOf type source data)) := by
  intro p hp
  rw [Memory.outbox_sent] at hp
  rcases List.mem_append.1 hp with hp | hp
  · exact h p hp
  · rw [List.mem_singleton.1 hp]
    exact ⟨type, htype, typeOf_wireOf _ _ hcolon⟩

theorem Granted.notified (h : Granted m) : Granted (Conferencing.notified m) := by
  intro p hp
  rcases List.mem_append.1 hp with hp | hp
  · exact h p hp
  · obtain ⟨u, -, rfl⟩ := List.mem_map.1 hp
    exact ⟨MsgType.pmMessage, by decide, typeOf_wireOf _ _ (by decide)⟩

theorem Granted.left (h : Granted m) (i : Nat) (sessionId : Bytes) : Granted (Conferencing.left m i sessionId) := by
  have hset : Granted (m.setUsers (leftTable m.users i sessionId)) := h.congr rfl
  exact hset.notified

theorem Exits.granted {m' : Memory} {name : Bytes} (h : Exits m name m') (hm : Granted m) : Granted m' := by
  cases h with
  | out _ _ => exact hm
  | reserved _ _ _ => exact hm.notified
  | leaving _ _ _ => exact hm.left _ _

/-- A request changes no record and not the file, or is answered with grants. -/
theorem Served.granted {socketFd : Nat} {conn : Conn} {received : Message} {claimed : CStr maxName} {m' : Memory}
    {r : Option Conn} (h : Served socketFd conn received claimed m r m') (hm : Granted m)
    (hsource : colon ∉ conn.source.bytes) (hclaimed : colon ∉ claimed.bytes) :
    m'.users = m.users ∧ m'.file = m.file ∨ Granted m' := by
  have hmsg : ∀ {type : UInt32}, type ∈ grants → ∀ (m₁ : Memory), m₁.outbox = m.outbox → ∀ fd {source : CStr maxName},
      colon ∉ source.bytes → ∀ data, Granted (m₁.sent fd (wireOf type source data)) := by
    intro type htype m₁ heq fd source hcolon data
    exact (hm.congr heq).sent htype fd hcolon data
  cases h with
  | answered _ _ _ => exact Or.inl ⟨rfl, rfl⟩
  | echoed _ => exact Or.inl ⟨rfl, rfl⟩
  | loggedIn _ _ _ => exact Or.inr (hmsg (by decide) _ rfl _ hclaimed none)
  | registered _ _ _ _ => exact Or.inr (hmsg (by decide) _ rfl _ hclaimed none)
  | exited _ hx => exact Or.inr (hx.granted hm)
  | created _ _ _ _ _ => exact Or.inr (hmsg (by decide) _ rfl _ hsource _)
  | joined _ _ _ _ _ => exact Or.inr (hmsg (by decide) _ rfl _ hsource _)
  | leftOut _ _ _ => exact Or.inl ⟨rfl, rfl⟩
  | leftReserved _ _ _ _ => exact Or.inl ⟨rfl, rfl⟩
  | left _ _ _ _ => exact Or.inr (hm.left _ _)
  | relayed _ _ _ => exact Or.inl ⟨rfl, rfl⟩
  | kicked _ _ _ _ =>
    have hnotice := hmsg (show MsgType.kiMessage ∈ grants by decide) _ rfl
    exact Or.inr ((hnotice _ (by decide) _).sent (by decide) _ hsource _)
  | promoted _ _ _ _ =>
    have hnotice := hmsg (show MsgType.pmMessage ∈ grants by decide) _ rfl
    exact Or.inr ((hnotice _ (by decide) _).sent (by decide) _ hsource _)

end Granted

/-! ### The frame of a request -/

/-- The changes that a request may make: to the requester's record (for `LOGIN` the one of the account), to the
target's, and to the role of the member that remains in a session. -/
def InScope (users : List User) (conn : Conn) (received : Message) (claimed : CStr maxName) (k : Nat) (u u' : User) :
    Prop :=
  received.type = MsgType.login ∧ Record users claimed.bytes k u ∨
  received.type ∈ [MsgType.join, MsgType.newSess, MsgType.leaveSess, MsgType.exit, MsgType.promote] ∧
    Record users conn.source.bytes k u ∨
  received.type ∈ [MsgType.kick, MsgType.promote] ∧ Record users (cstr received.data.bytes) k u ∨
  received.type ∈ [MsgType.leaveSess, MsgType.exit] ∧ Remains users conn.source.bytes k u ∧ u' = u.setRole u'.role

private theorem Leaves.inScope {users : List User} {conn : Conn} {received : Message} {claimed : CStr maxName} {k : Nat}
    {u u' : User} (h : Leaves users conn.source.bytes k u u') (htype : received.type = MsgType.leaveSess) :
    u' = u ∨ InScope users conn received claimed k u u' := by
  cases h with
  | same _ => exact Or.inl rfl
  | own hrec _ _ => exact Or.inr (Or.inr (Or.inl ⟨by simp [htype], hrec⟩))
  | last h => exact Or.inr (Or.inr (Or.inr (Or.inr ⟨by simp [htype], h, rfl⟩)))

private theorem Quits.inScope {users : List User} {conn : Conn} {received : Message} {claimed : CStr maxName} {k : Nat}
    {u u' : User} (h : Quits users conn.source.bytes k u u') (htype : received.type = MsgType.exit) :
    u' = u ∨ InScope users conn received claimed k u u' := by
  cases h with
  | same _ => exact Or.inl rfl
  | out hrec _ => exact Or.inr (Or.inr (Or.inl ⟨by simp [htype], hrec⟩))
  | own hrec _ _ => exact Or.inr (Or.inr (Or.inl ⟨by simp [htype], hrec⟩))
  | last h => exact Or.inr (Or.inr (Or.inr (Or.inr ⟨by simp [htype], h, rfl⟩)))

private theorem Touched.inScope {users : List User} {socketFd : Nat} {conn : Conn} {received : Message}
    {claimed : CStr maxName} {k : Nat} {u u' : User} (h : Touched users socketFd conn received claimed k u u') :
    u' = u ∨ InScope users conn received claimed k u u' := by
  cases h with
  | same => exact Or.inl rfl
  | login htype hrec _ => exact Or.inr (Or.inl ⟨htype, hrec⟩)
  | exit htype h => exact h.inScope htype
  | create htype hrec _ _ => exact Or.inr (Or.inr (Or.inl ⟨by simp [htype], hrec⟩))
  | join htype hrec _ _ => exact Or.inr (Or.inr (Or.inl ⟨by simp [htype], hrec⟩))
  | leave htype h => exact h.inScope htype
  | kick htype _ hrec _ => exact Or.inr (Or.inr (Or.inr (Or.inl ⟨by simp [htype], hrec⟩)))
  | promote htype _ hrec _ => exact Or.inr (Or.inr (Or.inr (Or.inl ⟨by simp [htype], hrec⟩)))
  | demote htype hrec _ => exact Or.inr (Or.inr (Or.inl ⟨by simp [htype], hrec⟩))

/-- Requests touch only the records they name.  In every event that serves a request of a connection that is logged in,
a refusal leaves the records and the file as they were; and whatever the answer, no record comes or goes but the one
that `CREATE` appends, and those that differ are in the scope of the request. -/
theorem request_frame {s t : ServerState} (hr : Reachable server s) {socketFd : Nat} {conn : Conn}
    (hconn : s.conns socketFd = .running conn) (hon : conn.serverConnectionStatus = .online) {chunk : Bytes}
    {received : Message} {claimed : CStr maxName} (hdec : decode (recvBuffer chunk) = some (received, claimed))
    (hnext : s.next (.recv socketFd chunk) = some t) :
    (Refused t.world.mem → t.world.mem.users = s.world.mem.users ∧ t.world.mem.file = s.world.mem.file) ∧
    (t.world.mem.users.length = s.world.mem.users.length ∨ received.type = MsgType.create ∧
      ∃ new, new.username = claimed ∧ t.world.mem.users = s.world.mem.users ++ [new]) ∧
    ∀ k u u', s.world.mem.users[k]? = some u → t.world.mem.users[k]? = some u' →
      u' = u ∨ InScope s.world.mem.users conn received claimed k u u' := by
  obtain ⟨-, hsource⟩ := record_of_reachable hr hconn hon
  have hturn := ServerState.turn hnext
  cases hturn with
  | recvWaits _ _ hmem =>
    have hkept : ∀ k u u', s.world.mem.users[k]? = some u → s.world.mem.users[k]? = some u' →
        u' = u ∨ InScope s.world.mem.users conn received claimed k u u' := by
      intro k u u' hu hu'
      exact Or.inl (Option.some.inj (hu'.symm.trans hu))
    simp only [ServerState.setConn, hmem]
    exact ⟨fun _ => ⟨rfl, rfl⟩, Or.inl rfl, hkept⟩
  | @served _ _ conn' received' claimed' r w hconn' hdec' _ hserved =>
    obtain rfl : conn' = conn := Slot.running.inj (hconn'.symm.trans hconn)
    obtain ⟨rfl, rfl⟩ : received' = received ∧ claimed' = claimed := by
      simpa using hdec'.symm.trans hdec
    refine ⟨fun hrefused => ?_, ?_, fun k u u' hu hu' => ?_⟩
    · have hempty : Granted s.clear.mem := fun p hp => absurd hp (List.not_mem_nil)
      rcases hserved.granted hempty hsource (decode_eq_some hdec).2.1 with hsame | hgranted
      · exact hsame
      · exact absurd hrefused hgranted.not_refused
    · rcases hserved.touched with htouched | ⟨htype, password, hnew⟩
      · exact Or.inl htouched.length_eq
      · exact Or.inr ⟨htype, _, rfl, hnew⟩
    · rcases hserved.touched with htouched | ⟨-, password, hnew⟩
      · obtain ⟨v, hv, htouch⟩ := htouched.get k u hu
        obtain rfl : v = u' := Option.some.inj (hv.symm.trans hu')
        exact htouch.inScope
      · left
        have hlt : k < s.world.mem.users.length := (List.getElem?_eq_some_iff.1 hu).1
        change w.mem.users[k]? = some u' at hu'
        rw [hnew] at hu'
        change (s.world.mem.users ++ _)[k]? = some u' at hu'
        rw [List.getElem?_append_left hlt, hu] at hu'
        exact (Option.some.inj hu').symm

/-- `bob` kicks `ann` out of the session of `ann` and him. -/
theorem request_frame_kick : ∃ s t received, afterEvents bobAndAnn = some s ∧
    decode (recvBuffer (ascii "16:3:bob:ann")) = some (received, ⟨ascii "bob", by decide, by decide⟩) ∧
    s.next (.recv 3 (ascii "16:3:bob:ann")) = some t ∧
    t.world.mem.users.map User.inSession = [.online, .offline] ∧
    (Refused t.world.mem → t.world.mem.users = s.world.mem.users ∧ t.world.mem.file = s.world.mem.file) ∧
    (t.world.mem.users.length = s.world.mem.users.length ∨ received.type = MsgType.create ∧
      ∃ new, new.username = ⟨ascii "bob", by decide, by decide⟩ ∧ t.world.mem.users = s.world.mem.users ++ [new]) ∧
    ∀ k u u', s.world.mem.users[k]? = some u → t.world.mem.users[k]? = some u' →
      u' = u ∨ InScope s.world.mem.users ⟨⟨ascii "bob", by decide, by decide⟩, .online⟩ received
        ⟨ascii "bob", by decide, by decide⟩ k u u' := by
  let bob : CStr maxName := ⟨ascii "bob", by decide, by decide⟩
  obtain ⟨s, t, hs, hnext, ht⟩ := afterEvents_last bobAndAnn (.recv 3 (ascii "16:3:bob:ann")) (by decide)
  have hconn : s.conns 3 = .running ⟨bob, .online⟩ := of_afterEvents (f := fun s => s.conns 3) hs (by decide)
  have hsource : (decode (recvBuffer (ascii "16:3:bob:ann"))).map Prod.snd = some bob := by decide
  obtain ⟨⟨received, claimed⟩, hdec, rfl⟩ := Option.map_eq_some_iff.1 hsource
  have hout : t.world.mem.users.map User.inSession = [.online, .offline] :=
    of_afterEvents (f := fun t => t.world.mem.users.map User.inSession) ht (by decide)
  exact ⟨s, t, received, hs, hdec, hnext, hout, request_frame (reachable_afterEvents hs) hconn rfl hdec hnext⟩

end Conferencing
