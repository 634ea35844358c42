import NetLabs.Conferencing.Accounts
import NetLabs.Conferencing.Ghosts

/-!
# The capacity of the user table

`user_database_init` allocates sixteen records, `user_database_add_user` refuses a record only when there are a hundred,
and nothing makes the allocation larger.  The loader adds a record for every name that the file spells (`length_loaded`),
an accepted `CREATE` adds one more (`Turn.length_cases`), and each is written behind the last one (`places_eq`).  So the
table stays inside its allocation exactly when the file spells at most sixteen names and no `CREATE` is accepted when
there are sixteen records.
-/

namespace Conferencing

open CText LockProg Transition

/-- `data_base_initial_capacity`; `capacity` never changes. -/
abbrev databaseInitialCapacity : Nat := 16

/-- Where `user_database_add_user` writes a record. -/
def insertedAt (users : List User) (userData : User) : List Nat :=
  if (addUser users userData).1 = .addUserSuccess then [users.length] else []

/-- Where the loop of `set_up_database` writes records, in at most `fuel` turns. -/
def loadedAt : Nat → Bytes → NameBuffers → List User → List Nat
  | 0, _, _, _ => []
  | fuel + 1, input, buffers, users =>
    let r := fscanf recordFormat input
    if r.isEOF then []
    else match readNames buffers r.converted with
      | none => []
      | some (username, password) =>
        insertedAt users (loadedUser username password) ++
          loadedAt fuel r.rest ⟨some username, some password⟩ (addUser users (loadedUser username password)).2

/-- The names that the loop copies, in at most `fuel` turns. -/
def loadedNames : Nat → Bytes → NameBuffers → List Bytes
  | 0, _, _ => []
  | fuel + 1, input, buffers =>
    let r := fscanf recordFormat input
    if r.isEOF then []
    else match readNames buffers r.converted with
      | none => []
      | some (username, password) =>
        username.bytes :: loadedNames fuel r.rest ⟨some username, some password⟩

/-- The places at which records have been written, after an event; the records behind those there were before are new. -/
def logInsertions (s : ServerState) (_ : Event) (t : ServerState) (places : List Nat) : List Nat :=
  places ++ List.range' s.world.mem.users.length (t.world.mem.users.length - s.world.mem.users.length)

/-- The server on a file, with the places at which records have been written. -/
def insertions (fuel : Nat) (file : Bytes) : System (ServerState × List Nat) Event :=
  (serverOn file).recording (loadedAt fuel file ⟨none, none⟩ []) logInsertions

/-- The table is inside its allocation, with every record that was written. -/
structure Allocated (s : ServerState) (places : List Nat) : Prop where
  count : s.world.mem.users.length ≤ databaseInitialCapacity
  written : ∀ i ∈ places, i < databaseInitialCapacity

/-- The event is a `CREATE` that is accepted. -/
def AddsAccount (s : ServerState) : Event → Prop
  | .recv _ chunk => ∃ p ∈ decode (recvBuffer chunk), p.1.type = MsgType.create ∧ Accepts s p.1 p.2
  | _ => False

/-- It is accepted when there are sixteen records. -/
def Overruns (s : ServerState) (e : Event) : Prop :=
  databaseInitialCapacity ≤ s.world.mem.users.length ∧ AddsAccount s e

/-! ### Loading -/

/-- A record is written behind the last one, and there is one more then. -/
private theorem insertedAt_eq (users : List User) (userData : User) :
    insertedAt users userData =
      List.range' users.length ((addUser users userData).2.length - users.length) ∧
    users.length ≤ (addUser users userData).2.length := by
  unfold insertedAt addUser
  split
  · simp
  · split
    · simp
    · simp

/-- A turn of the loop that copies two names. -/
private theorem loadedAt_succ {fuel : Nat} {input : Bytes} {buffers : NameBuffers} {users : List User}
    {username : CStr maxName} {password : CStr maxPassword} (hcall : ¬ (fscanf recordFormat input).isEOF = true)
    (hnames : readNames buffers (fscanf recordFormat input).converted = some (username, password)) :
    loadedAt (fuel + 1) input buffers users = insertedAt users (loadedUser username password) ++
      loadedAt fuel (fscanf recordFormat input).rest ⟨some username, some password⟩
        (addUser users (loadedUser username password)).2 := by
  simp only [loadedAt, if_neg hcall, hnames]

private theorem loadedNames_succ {fuel : Nat} {input : Bytes} {buffers : NameBuffers} {username : CStr maxName}
    {password : CStr maxPassword} (hcall : ¬ (fscanf recordFormat input).isEOF = true)
    (hnames : readNames buffers (fscanf recordFormat input).converted = some (username, password)) :
    loadedNames (fuel + 1) input buffers =
      username.bytes :: loadedNames fuel (fscanf recordFormat input).rest ⟨some username, some password⟩ := by
  simp only [loadedNames, if_neg hcall, hnames]

/-- The loader fills the table from the first free place on. -/
private theorem loadedAt_eq {fuel : Nat} {input : Bytes} {buffers : NameBuffers} {users users' : List User}
    (h : setUpDatabaseLoop fuel input buffers users = .loaded users') :
    loadedAt fuel input buffers users = List.range' users.length (users'.length - users.length) ∧
      users.length ≤ users'.length := by
  induction fuel generalizing input buffers users with
  | zero => cases h
  | succ fuel ih =>
    unfold setUpDatabaseLoop at h
    dsimp only at h
    split at h
    · rename_i heof
      cases h
      simp [loadedAt, heof]
    · rename_i hcall
      split at h
      · cases h
      · rename_i username password hnames
        obtain ⟨hfirst, hle⟩ := insertedAt_eq users (loadedUser username password)
        obtain ⟨hrest, hle'⟩ := ih h
        refine ⟨?_, hle.trans hle'⟩
        rw [loadedAt_succ hcall hnames, hfirst, hrest]
        -- the places of the first record and those of the rest are one range
        have happ := @List.range'_append_1 users.length ((addUser users (loadedUser username password)).2.length - users.length)
          (users'.length - (addUser users (loadedUser username password)).2.length)
        rw [Nat.add_sub_cancel' hle] at happ
        rw [happ]
        congr 1
        omega

/-- A name that is added is one of those still to come before. -/
private theorem card_addUser {users : List User} {u : User} (hnodup : (users.map User.name).Nodup)
    (names : List Bytes) :
    min maxUserCount ((addUser users u).2.map User.name ++ names).toFinset.card =
      min maxUserCount (users.map User.name ++ u.name :: names).toFinset.card := by
  by_cases hknown : u.name ∈ users.map User.name
  · rw [addUser_known hknown]
    congr 2
    ext name
    simp only [List.mem_toFinset, List.mem_append, List.mem_cons]
    constructor
    · exact fun h => h.imp_right Or.inr
    · rintro (h | rfl | h)
      · exact Or.inl h
      · exact Or.inl hknown
      · exact Or.inr h
  · by_cases hroom : users.length < maxUserCount
    · rw [addUser_new hroom hknown, List.map_append, List.append_assoc]
      rfl
    · -- a full table has a hundred names already
      have hfull : ∀ more : List Bytes, maxUserCount ≤ (users.map User.name ++ more).toFinset.card := by
        intro more
        calc maxUserCount
          _ ≤ (users.map User.name).length := by rw [List.length_map]; exact Nat.le_of_not_lt hroom
          _ = (users.map User.name).toFinset.card := (List.toFinset_card_of_nodup hnodup).symm
          _ ≤ (users.map User.name ++ more).toFinset.card := by
            rw [List.toFinset_append]
            exact Finset.card_le_card Finset.subset_union_left
      have hsame : (addUser users u).2 = users := by
        rw [addUser, if_pos (Nat.le_of_not_lt hroom)]
      rw [hsame, min_eq_left (hfull _), min_eq_left (hfull _)]

/-- The loader adds a record for every name that the file spells, up to a hundred. -/
private theorem length_loaded {fuel : Nat} {input : Bytes} {buffers : NameBuffers} {users users' : List User}
    (h : setUpDatabaseLoop fuel input buffers users = .loaded users') (hnodup : (users.map User.name).Nodup)
    (hle : users.length ≤ maxUserCount) :
    users'.length = min maxUserCount (users.map User.name ++ loadedNames fuel input buffers).toFinset.card := by
  induction fuel generalizing input buffers users with
  | zero => cases h
  | succ fuel ih =>
    unfold setUpDatabaseLoop at h
    dsimp only at h
    split at h
    · rename_i heof
      cases h
      rw [loadedNames, if_pos heof, List.append_nil, List.toFinset_card_of_nodup hnodup, List.length_map, min_eq_right hle]
    · rename_i hcall
      split at h
      · cases h
      · rename_i username password hnames
        have hrest := ih h (nodup_names_addUser hnodup) (length_addUser hle)
        rw [hrest, card_addUser hnodup, loadedNames_succ hcall hnames]
        rfl

/-! ### Serving -/

section Serving

variable {s t : ServerState} {e : Event}

/-- A `CREATE` that is accepted adds a record, or the password overruns its field. -/
private theorem serve_accepted {socketFd : Nat} {conn : Conn} {chunk : Bytes} {received : Message}
    {claimed : CStr maxName}
    (hdec : decode (recvBuffer chunk) = some (received, claimed)) (htype : received.type = MsgType.create)
    (haccepts : Accepts s received claimed) : serve socketFd conn chunk s.clear = .fault ∨
      ∃ r w, serve socketFd conn chunk s.clear = .ret r w ∧
        w.mem.users.length = s.world.mem.users.length + 1 := by
  obtain ⟨hul, ⟨hlogin, -⟩ | ⟨-, hrw, hroom, hnew⟩⟩ := haccepts
  · rw [htype] at hlogin
    exact absurd hlogin (by decide)
  · have hul' : s.clear.held .userList = false := hul
    have hrw' : s.clear.held .rw = false := hrw
    have hne : ¬ MsgType.create = MsgType.login := by decide
    have hack := run_fillAndSend (show MsgType.rgAck ≠ MsgType.message by decide)
    rw [serve_eq hdec]
    simp only [dispatch, htype, hne, ↓reduceIte, run_bind, run_userRegistration, hul', hrw', Bool.false_eq_true]
    cases hpw : CStr.ofBytes? maxPasswordLength (cstr received.data.bytes) with
    | none => exact Or.inl rfl
    | some password =>
      right
      rcases registration_cases s.clear.mem claimed password socketFd with ⟨hreg, -, -⟩ | ⟨hcode, -⟩
      · simp only [hreg, ↓reduceIte, run_bind, bind_ret, hack, run_pure]
        exact ⟨_, _, rfl, List.length_append⟩
      · -- there is room, and the name is new
        have hnew' : databaseSearchUser s.clear.mem.users (registeredUser claimed password socketFd).username.bytes =
          none := hnew
        have hroom' : ¬ s.clear.mem.users.length ≥ maxUserCount := Nat.not_le.2 hroom
        simp [registration, addUser, hnew', hroom'] at hcode

/-- An event adds a record when it is a `CREATE` that is accepted, and none otherwise. -/
private theorem Turn.length_cases (hturn : Turn s e t) :
    AddsAccount s e ∧ t.world.mem.users.length = s.world.mem.users.length + 1 ∨
      ¬ AddsAccount s e ∧ t.world.mem.users.length = s.world.mem.users.length := by
  by_cases hadds : AddsAccount s e
  · left
    refine ⟨hadds, ?_⟩
    cases hturn with
    | served hconn hdec hrun hserved =>
      obtain ⟨p, hp, htype, haccepts⟩ := hadds
      rcases serve_accepted hp htype haccepts with hfault | ⟨r, w, hret, hlength⟩
      · rw [hfault] at hrun
        cases hrun
      · rw [hret] at hrun
        cases hrun
        exact hlength
    | recvWaits hconn hrun hmem =>
      obtain ⟨p, hp, htype, haccepts⟩ := hadds
      rcases serve_accepted hp htype haccepts with hfault | ⟨r, w, hret, hlength⟩
      · rw [hfault] at hrun
        cases hrun
      · rw [hret] at hrun
        cases hrun
    | _ => exact hadds.elim
  · right
    refine ⟨hadds, ?_⟩
    rcases hturn.login_cases with ⟨claimed, hlogin⟩ | ⟨claimed, password, hreg⟩ | hneither
    · obtain ⟨i, u, -, -, husers⟩ := hlogin.users
      rw [husers, List.length_modify]
    · obtain ⟨socketFd, chunk, conn, received, rfl, -, hdec, haccepts⟩ := accepts_of_login hturn hreg.loggedIn
      obtain ⟨p, hp, -⟩ := Option.bind_eq_some_iff.1 hreg.registered
      obtain ⟨-, htype, -⟩ := acknowledged_eq_some hdec hp
      exact absurd ⟨_, hdec, htype, haccepts⟩ hadds
    · exact hneither.users.length_eq.symm

/-- The records have been written from the first place on. -/
private theorem places_eq {file : Bytes} {fuel : Nat} {loaded : List User}
    (hload : setUpDatabaseLoop fuel file ⟨none, none⟩ [] = .loaded loaded) {p : ServerState × List Nat}
    (hr : Reachable (insertions fuel file) p) : p.2 = List.range p.1.world.mem.users.length := by
  induction hr with
  | @init p h =>
    obtain ⟨⟨users, hload', hstart⟩, hempty⟩ := h
    obtain rfl := (loads_iff.2 ⟨fuel, hload⟩).unique (loads_iff.2 hload')
    rw [hempty, hstart, (loadedAt_eq hload).1, List.range_eq_range']
    rfl
  | @step p q e _ hst ih =>
    rw [hst.2, logInsertions, ih]
    rcases (ServerState.turn hst.1).length_cases with ⟨-, hlength⟩ | ⟨-, hlength⟩
    · rw [hlength, Nat.add_sub_cancel_left, List.range'_one, List.range_succ]
    · rw [hlength, Nat.sub_self, List.range'_zero, List.append_nil]

private theorem allocated_iff {file : Bytes} {fuel : Nat} {loaded : List User}
    (hload : setUpDatabaseLoop fuel file ⟨none, none⟩ [] = .loaded loaded) {p : ServerState × List Nat}
    (hr : Reachable (insertions fuel file) p) :
    Allocated p.1 p.2 ↔ p.1.world.mem.users.length ≤ databaseInitialCapacity := by
  constructor
  · exact Allocated.count
  · refine fun hle => ⟨hle, fun i hi => ?_⟩
    rw [places_eq hload hr, List.mem_range] at hi
    exact hi.trans_le hle

end Serving

/-- The table that is loaded from a file is inside its allocation if and only if the file spells at most sixteen names.
Then it is so in every state of every run in which no `CREATE` is accepted when there are sixteen records; and one that
is leads out of it. -/
theorem user_table_capacity {file : Bytes} {fuel : Nat} {loaded : List User}
    (hload : setUpDatabaseLoop fuel file ⟨none, none⟩ [] = .loaded loaded) :
    (Allocated (started file loaded) (loadedAt fuel file ⟨none, none⟩ []) ↔
      (loadedNames fuel file ⟨none, none⟩).toFinset.card ≤ databaseInitialCapacity) ∧
    ((loadedNames fuel file ⟨none, none⟩).toFinset.card ≤ databaseInitialCapacity →
      ∀ p, Reachable ((insertions fuel file).when fun p e => ¬ Overruns p.1 e) p → Allocated p.1 p.2 ∧
        ∀ e t, p.1.next e = some t → (Allocated t (logInsertions p.1 e t p.2) ↔ ¬ Overruns p.1 e)) := by
  have hstart : Reachable (insertions fuel file) (started file loaded, loadedAt fuel file ⟨none, none⟩ []) :=
    .init ⟨⟨loaded, ⟨fuel, hload⟩, rfl⟩, rfl⟩
  have hlength : loaded.length = min maxUserCount (loadedNames fuel file ⟨none, none⟩).toFinset.card :=
    length_loaded hload List.nodup_nil (Nat.zero_le _)
  have hloaded : Allocated (started file loaded) (loadedAt fuel file ⟨none, none⟩ []) ↔
      (loadedNames fuel file ⟨none, none⟩).toFinset.card ≤ databaseInitialCapacity := by
    rw [allocated_iff hload hstart]
    show loaded.length ≤ databaseInitialCapacity ↔ _
    rw [hlength, min_le_iff]
    exact or_iff_right (by decide)
  -- one step, from a state that is reached with any history
  have hstep : ∀ {p : ServerState × List Nat}, Reachable (insertions fuel file) p → Allocated p.1 p.2 →
      ∀ {e t}, p.1.next e = some t → (Allocated t (logInsertions p.1 e t p.2) ↔ ¬ Overruns p.1 e) := by
    intro p hr hp e t hnext
    have hnext' : Reachable (insertions fuel file) (t, logInsertions p.1 e t p.2) := .step hr ⟨hnext, rfl⟩
    have hcount := hp.count
    rw [allocated_iff hload hnext', Overruns, not_and_or, Nat.not_le]
    rcases (ServerState.turn hnext).length_cases with ⟨hadds, hone⟩ | ⟨hadds, hsame⟩
    · rw [hone]
      exact ⟨Or.inl, fun h => h.resolve_right fun hnot => hnot hadds⟩
    · rw [hsame]
      exact ⟨fun _ => Or.inr hadds, fun _ => hcount⟩
  refine ⟨hloaded, fun hnames p hr => ?_⟩
  have hp : Allocated p.1 p.2 := by
    refine hr.invariant (P := fun p => Allocated p.1 p.2) ?_ fun p e q hr hp hst => ?_
    · rintro p ⟨⟨users, hload', hinit⟩, hempty⟩
      obtain rfl := (loads_iff.2 ⟨fuel, hload⟩).unique (loads_iff.2 hload')
      rw [hinit, hempty]
      exact hloaded.2 hnames
    · obtain ⟨hover, hnext, hlog⟩ := hst
      rw [hlog]
      exact (hstep hr.of_when hp hnext).2 hover
  exact ⟨hp, fun e t hnext => hstep hr.of_when hp hnext⟩

/-- The file of one record fits, and so does the account that is registered next. -/
theorem user_table_capacity_ann : ∃ p, (∃ loaded, SetUpDatabase annFile loaded ∧
      Allocated (started annFile loaded) (loadedAt 2 annFile ⟨none, none⟩ [])) ∧
    Reachable ((insertions 2 annFile).when fun p e => ¬ Overruns p.1 e) p ∧ p.2 = [0, 1] ∧ Allocated p.1 p.2 ∧
    ∀ e t, p.1.next e = some t → (Allocated t (logInsertions p.1 e t p.2) ↔ ¬ Overruns p.1 e) := by
  let loaded : List User := [createUser (loadedUser ⟨ascii "ann", by decide, by decide⟩ ⟨ascii "pw", by decide, by decide⟩)]
  let step := guarded (fun (p : ServerState × List Nat) (_ : Event) => p.1.world.mem.users.length < databaseInitialCapacity)
    (recordNext ServerState.next logInsertions)
  let run := runFrom step (started annFile loaded, loadedAt 2 annFile ⟨none, none⟩ [])
    [.accept 3 serverName, .recv 3 (ascii "13:1:bob:x")]
  have hload : setUpDatabaseLoop 2 annFile ⟨none, none⟩ [] = .loaded loaded := by decide
  have hplaces : run.map Prod.snd = some [0, 1] := by decide
  obtain ⟨p, hp, hat⟩ := Option.map_eq_some_iff.1 hplaces
  have hr : Reachable ((insertions 2 annFile).when fun p e => ¬ Overruns p.1 e) p := by
    refine Reachable.runFrom (fun p e q h => ?_) (.init ⟨⟨loaded, ⟨2, hload⟩, rfl⟩, rfl⟩) hp
    obtain ⟨hroom, h⟩ := Option.ite_none_right_eq_some.1 h
    obtain ⟨t, ht, rfl⟩ := Option.map_eq_some_iff.1 h
    exact ⟨fun hover => Nat.not_le_of_lt hroom hover.1, ht, rfl⟩
  obtain ⟨hfits, hruns⟩ := user_table_capacity hload
  obtain ⟨hallocated, hnext⟩ := hruns (by decide) p hr
  exact ⟨p, ⟨loaded, ⟨2, hload⟩, hfits.2 (by decide)⟩, hr, hat, hallocated, hnext⟩

/-- The accounts `a`, `b`, .. with their names as passwords. -/
def letterAccounts (n : Nat) : List Account :=
  (List.range n).filterMap fun i => do
    let username ← CStr.ofBytes? maxName [UInt8.ofNat (97 + i)]
    let password ← CStr.ofBytes? maxPasswordLength [UInt8.ofNat (97 + i)]
    some (username, password)

private theorem letterAccounts_written {n : Nat} (hn : n ≤ 26) : ∀ a ∈ letterAccounts n, Written a ∧ Storable a := by
  intro a ha
  obtain ⟨i, hi, ha⟩ := List.mem_filterMap.1 ha
  obtain ⟨username, husername, ha⟩ := Option.bind_eq_some_iff.1 ha
  obtain ⟨password, hpassword, ha⟩ := Option.bind_eq_some_iff.1 ha
  cases ha
  have hplain : Plain [UInt8.ofNat (97 + i)] := by
    intro b hb hquote
    have hlt := List.mem_range.1 hi
    have hnat : (UInt8.ofNat (97 + i)).toNat = 97 + i := by
      rw [UInt8.toNat_ofNat']
      omega
    rw [List.mem_singleton.1 hb] at hquote
    have hcode : 97 + i = 124 ∨ 97 + i = 34 := by
      simp only [List.mem_cons, List.not_mem_nil, or_false] at hquote
      exact hquote.imp (fun h => hnat.symm.trans (congrArg UInt8.toNat h)) fun h => hnat.symm.trans (congrArg UInt8.toNat h)
    omega
  have hu := CStr.ofBytes?_eq_some.1 husername
  have hp := CStr.ofBytes?_eq_some.1 hpassword
  refine ⟨⟨?_, ?_, ?_, ?_⟩, ?_, ?_, ?_⟩ <;> simp only [hu, hp]
  · simp
  · simp
  · exact hplain
  · exact hplain
  · exact hplain
  · exact hplain
  · simp only [List.length_singleton, maxPassword]
    omega

/-- A file of seventeen accounts, which the server loads: the last record is written behind the allocation. -/
theorem user_table_capacity_fails : ∃ file loaded, SetUpDatabase file loaded ∧
    Reachable server (started file loaded) ∧ ¬ (started file loaded).world.mem.users.length ≤ databaseInitialCapacity := by
  obtain ⟨loaded, hloads, haccounts⟩ := loads_recordLines (letterAccounts_written (n := 17) (by decide)) ⟨none, none⟩
    (show ([] : List User).length + (letterAccounts 17).length ≤ maxUserCount by decide) (by decide)
  have hload : SetUpDatabase _ loaded := loads_iff.1 hloads
  refine ⟨_, loaded, hload, .init ⟨_, loaded, hload, rfl⟩, ?_⟩
  have hlength := congrArg List.length haccounts
  have hletters : (letterAccounts 17).length = 17 := by decide
  rw [List.length_append, hletters, List.length_map] at hlength
  show ¬ loaded.length ≤ 16
  rw [hlength]
  decide

end Conferencing
