import NetLabs.Conferencing.Manager
import NetLabs.Conferencing.Commute
import NetLabs.Conferencing.Restart

/-!
# The server is a session manager

`managerOf` reads a session manager off a user table: the accounts with who is online, and the seats.  In every run of
requests that come from connections that are logged in and that the guards of the client let through, every event does
to the table what the manager does for the action that is asked for, and the reply is a refusal exactly when the
manager does not allow it (`server_refines_manager`).
-/

namespace Conferencing

open CText LockProg Transition

/-! ### The manager of a table -/

/-- The session of a record, with the role there. -/
def User.seat (u : User) : Option (Bytes × Role) :=
  if u.inSession = .online then some (u.sessionId.bytes, u.role) else none

def managerOf (users : List User) : Manager Bytes Bytes Bytes where
  account name := (ownRecord users name).map fun u => (u.password.bytes, u.status)
  seat name := (ownRecord users name).bind User.seat

section View

variable {users : List User} {name : Bytes} {i : Nat} {u : User} {f : User → User}

private theorem managerOf_account (hrec : Record users name i u) :
    (managerOf users).account name = some (u.password.bytes, u.status) := by
  simp only [managerOf, ownRecord_eq hrec, Option.map_some]

private theorem managerOf_seat (hrec : Record users name i u) : (managerOf users).seat name = u.seat := by
  simp only [managerOf, ownRecord_eq hrec, Option.bind_some]

private theorem managerOf_account_none (h : databaseSearchUser users name = none) :
    (managerOf users).account name = none := by
  simp only [managerOf, ownRecord_none h, Option.map_none]

private theorem managerOf_seat_none (h : databaseSearchUser users name = none) :
    (managerOf users).seat name = none := by
  simp only [managerOf, ownRecord_none h, Option.bind_none]

/-- Two tables with the same manager. -/
private theorem managerOf_ext {m : Manager Bytes Bytes Bytes}
    (h : ∀ name, (managerOf users).account name = m.account name ∧ (managerOf users).seat name = m.seat name) :
    managerOf users = m := by
  obtain ⟨account, seat⟩ := m
  have haccount := funext fun name => (h name).1
  have hseat := funext fun name => (h name).2
  simp only at haccount hseat
  rw [← haccount, ← hseat]

private theorem managerOf_modify (hrec : Record users name i u) (hf : ∀ u, (f u).name = u.name) :
    managerOf (users.modify i f) =
      ⟨Function.update (managerOf users).account name (some ((f u).password.bytes, (f u).status)),
        Function.update (managerOf users).seat name (f u).seat⟩ := by
  refine managerOf_ext fun k => ?_
  by_cases hk : k = name
  · subst hk
    have hrec' : Record (users.modify i f) k i (f u) := hrec.modify_self hf
    simp only [managerOf_account hrec', managerOf_seat hrec', Function.update_self, and_self]
  · simp only [Function.update_of_ne hk]
    rcases record_or_none users k with h | ⟨j, v, hrec'⟩
    · have h' : databaseSearchUser (users.modify i f) k = none := (Table.search_modify hf).trans h
      simp only [managerOf_account_none h, managerOf_account_none h', managerOf_seat_none h, managerOf_seat_none h',
        and_self]
    · have hrec'' : Record (users.modify i f) k j v := hrec'.modify_ne hf (hrec.ne hrec' (Ne.symm hk))
      simp only [managerOf_account hrec', managerOf_account hrec'', managerOf_seat hrec', managerOf_seat hrec'', and_self]

/-- A change to a record that keeps its account. -/
private theorem managerOf_modify_seat (hrec : Record users name i u) (hf : ∀ u, (f u).name = u.name)
    (hpw : (f u).password = u.password) (hst : (f u).status = u.status) :
    managerOf (users.modify i f) =
      ⟨(managerOf users).account, Function.update (managerOf users).seat name (f u).seat⟩ := by
  rw [managerOf_modify hrec hf, hpw, hst, ← managerOf_account hrec, Function.update_eq_self]

/-- A change to a record that keeps its seat. -/
private theorem managerOf_modify_account (hrec : Record users name i u) (hf : ∀ u, (f u).name = u.name)
    (hseat : (f u).seat = u.seat) :
    managerOf (users.modify i f) =
      ⟨Function.update (managerOf users).account name (some ((f u).password.bytes, (f u).status)),
        (managerOf users).seat⟩ := by
  rw [managerOf_modify hrec hf, hseat, ← managerOf_seat hrec, Function.update_eq_self]

private theorem managerOf_append (hnew : databaseSearchUser users name = none) (hname : u.name = name)
    (hseat : u.seat = none) :
    managerOf (users ++ [u]) =
      { managerOf users with account := Function.update (managerOf users).account name (some (u.password.bytes, u.status)) } := by
  refine managerOf_ext fun k => ?_
  by_cases hk : k = name
  · subst hk
    have hrec : Record (users ++ [u]) k users.length u := .append_new hnew hname
    simp only [managerOf_account hrec, managerOf_seat hrec, hseat, managerOf_seat_none hnew, Function.update_self,
      and_self]
  · simp only [Function.update_of_ne hk]
    rcases record_or_none users k with h | ⟨j, v, hrec⟩
    · have h' : databaseSearchUser (users ++ [u]) k = none := by
        have hother : ¬ u.name = k := fun h => hk (h.symm.trans hname)
        have hlast : Table.search User.name [u] k = none := by
          simp [Table.search, hother]
        rw [databaseSearchUser, Table.search_append_none h, hlast, Option.map_none]
      simp only [managerOf_account_none h, managerOf_account_none h', managerOf_seat_none h, managerOf_seat_none h',
        and_self]
    · have hrec' := hrec.append [u]
      simp only [managerOf_account hrec, managerOf_account hrec', managerOf_seat hrec, managerOf_seat hrec', and_self]

/-! ### Members -/

private theorem seat_eq_some {id : Bytes} {role : Role} :
    u.seat = some (id, role) ↔ u.inSession = .online ∧ u.sessionId.bytes = id ∧ u.role = role := by
  unfold User.seat
  split
  · simp [*]
  · simp [*]

private theorem mem_members (hrec : Record users name i u) {id : Bytes} :
    name ∈ (managerOf users).seat.members id ↔ u.inSession = .online ∧ u.sessionId.bytes = id := by
  simp only [Seating.members, Set.mem_ofPred_eq, managerOf_seat hrec, seat_eq_some, exists_and_left, exists_eq',
    and_true]

private theorem record_of_member {id : Bytes} (h : name ∈ (managerOf users).seat.members id) :
    ∃ i u, Record users name i u ∧ u.inSession = .online ∧ u.sessionId.bytes = id := by
  rcases record_or_none users name with hnone | ⟨i, u, hrec⟩
  · obtain ⟨r, hr⟩ := h
    rw [managerOf_seat_none hnone] at hr
    cases hr
  · exact ⟨i, u, hrec, (mem_members hrec).1 h⟩

/-- The names of the users in a session. -/
private theorem members_eq_names (hnames : (users.map User.name).Nodup) (hsettled : ∀ u ∈ users, u.Settled) {id : Bytes}
    (hid : id ≠ notInSession.bytes) :
    (managerOf users).seat.members id =
      ↑((users.filter fun u => u.sessionId.bytes = id).map User.name).toFinset := by
  ext name
  rw [List.coe_toFinset, Set.mem_ofPred_eq, List.mem_map]
  constructor
  · intro h
    obtain ⟨i, u, hrec, -, hu⟩ := record_of_member h
    exact ⟨u, by simp [hrec.mem, hu], hrec.key_eq⟩
  · rintro ⟨u, hu, rfl⟩
    simp only [List.mem_filter, decide_eq_true_eq] at hu
    obtain ⟨i, hrec⟩ := record_of_mem hnames hu.1
    refine (mem_members hrec).2 ⟨(hsettled u hu.1).flag.2 fun h => hid ?_, hu.2⟩
    rw [← hu.2, h]

private theorem ncard_members (hnames : (users.map User.name).Nodup) (hsettled : ∀ u ∈ users, u.Settled) {id : Bytes}
    (hid : id ≠ notInSession.bytes) :
    ((managerOf users).seat.members id).Finite ∧
      ((managerOf users).seat.members id).ncard = countInSession users id := by
  rw [members_eq_names hnames hsettled hid]
  refine ⟨Finset.finite_toSet _, ?_⟩
  have hnodup : ((users.filter fun u => u.sessionId.bytes = id).map User.name).Nodup :=
    (List.filter_sublist.map _).nodup hnames
  rw [Set.ncard_coe_finset, List.toFinset_card_of_nodup hnodup, List.length_map, countInSession,
    List.countP_eq_length_filter]

private theorem members_eq_empty (hnames : (users.map User.name).Nodup) (hsettled : ∀ u ∈ users, u.Settled) {id : Bytes}
    (hid : id ≠ notInSession.bytes) :
    (managerOf users).seat.members id = ∅ ↔ countInSession users id = 0 := by
  obtain ⟨hfinite, hcard⟩ := ncard_members hnames hsettled hid
  rw [← hcard, Set.ncard_eq_zero hfinite]

private theorem ncard_accounts (hnames : (users.map User.name).Nodup) :
    {name | (managerOf users).account name ≠ none}.ncard = users.length := by
  have hset : {name | (managerOf users).account name ≠ none} = ↑(users.map User.name).toFinset := by
    ext name
    rw [List.coe_toFinset, Set.mem_ofPred_eq, Set.mem_ofPred_eq, List.mem_map]
    rcases record_or_none users name with h | ⟨i, u, hrec⟩
    · refine iff_of_false (not_not_intro (managerOf_account_none h)) ?_
      rintro ⟨u, hu, hname⟩
      exact Table.search_eq_none h hu hname
    · refine iff_of_true ?_ ⟨u, hrec.mem, hrec.key_eq⟩
      rw [managerOf_account hrec]
      exact Option.some_ne_none _
  rw [hset, Set.ncard_coe_finset, List.toFinset_card_of_nodup hnames, List.length_map]

/-! ### Leaving -/

/-- Two users are in a session when one is left after the other has gone. -/
private theorem leavesAlone_iff (hnames : (users.map User.name).Nodup) (hsettled : ∀ u ∈ users, u.Settled)
    (hrec : Record users name i u) (hid : u.sessionId ≠ notInSession) {k : Bytes} {j : Nat} {v : User}
    (hrec' : Record users k j v) (hk : k ≠ name) :
    (∃ s, (managerOf users).seat.LeavesAlone name k s) ↔
      countInSession (users.modify i User.leave) u.sessionId.bytes = 1 ∧ v.sessionId = u.sessionId := by
  have hne : u.sessionId.bytes ≠ notInSession.bytes := fun h => hid (CStr.ext h)
  obtain ⟨hfinite, hcard⟩ := ncard_members hnames hsettled hne
  have hcount := countInSession_modify hrec.get User.leave u.sessionId.bytes
  have hout : ¬ u.leave.sessionId.bytes = u.sessionId.bytes := fun h => hne h.symm
  rw [if_pos rfl, if_neg hout] at hcount
  have hin : name ∈ (managerOf users).seat.members u.sessionId.bytes :=
    (mem_members hrec).2 ⟨(hsettled u hrec.mem).flag.2 hid, rfl⟩
  constructor
  · rintro ⟨s, halone⟩
    obtain rfl := Seating.mem_members_unique hin halone.1
    have htwo : ((managerOf users).seat.members u.sessionId.bytes).ncard = 2 := by
      rw [halone.2.2]
      exact Set.ncard_pair hk.symm
    exact ⟨by omega, CStr.ext ((mem_members hrec').1 halone.mem).2⟩
  · rintro ⟨hone, hsame⟩
    have hin' : k ∈ (managerOf users).seat.members u.sessionId.bytes := by
      refine (mem_members hrec').2 ⟨(hsettled v hrec'.mem).flag.2 ?_, congrArg CStr.bytes hsame⟩
      rw [hsame]
      exact hid
    refine ⟨u.sessionId.bytes, hin, hk.symm, (Set.eq_of_subset_of_ncard_le ?_ ?_ hfinite).symm⟩
    · rintro j (rfl | rfl)
      · exact hin
      · exact hin'
    · rw [Set.ncard_pair hk.symm]
      omega

private theorem leaving_kept (users : List User) (i : Nat) (own : User) (k : Nat) (v : User) :
    (leaving users i own k v).name = v.name ∧ (leaving users i own k v).password = v.password ∧
      (leaving users i own k v).status = v.status := by
  unfold leaving onlyAt
  dsimp only
  split
  · split <;> exact ⟨rfl, rfl, rfl⟩
  · split <;> exact ⟨rfl, rfl, rfl⟩

private theorem seat_leaving_self (hid : u.sessionId ≠ notInSession) : (leaving users i u i u).seat = none := by
  have hout : ¬ u.leave.sessionId = u.sessionId := fun h => hid h.symm
  simp only [leaving, onlyAt_self, hout, and_false, ↓reduceIte]
  rfl

/-- The seat of a user who stays. -/
private theorem seat_leaving (hnames : (users.map User.name).Nodup) (hsettled : ∀ u ∈ users, u.Settled)
    (hrec : Record users name i u) (hid : u.sessionId ≠ notInSession) {k : Bytes} {j : Nat} {v : User}
    (hrec' : Record users k j v) (hk : k ≠ name) :
    (leaving users i u j v).seat = (managerOf users).seat.vacate name k := by
  have hiff := leavesAlone_iff hnames hsettled hrec hid hrec' hk
  simp only [leaving, onlyAt_ne (hrec'.ne hrec hk)]
  split
  · obtain ⟨s, hs⟩ := hiff.2 ‹_›
    obtain ⟨hin, hvid⟩ := (mem_members hrec').1 hs.mem
    rw [Seating.vacate_alone hs, seat_eq_some]
    exact ⟨hin, hvid, rfl⟩
  · rename_i hstay
    rw [Seating.vacate_kept hk (not_exists.1 (mt hiff.1 hstay)), managerOf_seat hrec']

private theorem managerOf_leave (hnames : (users.map User.name).Nodup) (hsettled : ∀ u ∈ users, u.Settled)
    (hrec : Record users name i u) (hid : u.sessionId ≠ notInSession) :
    managerOf (leftTable users i u.sessionId.bytes) =
      ⟨(managerOf users).account, (managerOf users).seat.vacate name⟩ := by
  have hleave : Table.Pointwise (fun k v v' => v' = leaving users i u k v) users
      (leftTable users i u.sessionId.bytes) := by
    rw [← mapIdx_leaving]
    exact .mapIdx fun _ _ _ => rfl
  have hname : ∀ k v v', v' = leaving users i u k v → v'.name = v.name := by
    rintro k v _ rfl
    exact (leaving_kept users i u k v).1
  refine managerOf_ext fun k => ?_
  rcases record_or_none users k with h | ⟨j, v, hv⟩
  · have h' : databaseSearchUser (leftTable users i u.sessionId.bytes) k = none :=
      (Table.search_congr (hleave.map_eq hname)).trans h
    have hk : k ≠ name := by
      rintro rfl
      cases hrec.found.symm.trans h
    have hstay : (managerOf users).seat.vacate name k = (managerOf users).seat k := by
      refine Seating.vacate_kept hk fun s halone => ?_
      obtain ⟨j, v, hv, -⟩ := record_of_member halone.mem
      cases hv.found.symm.trans h
    simp only [managerOf_account_none h, managerOf_account_none h', managerOf_seat_none h', hstay,
      managerOf_seat_none h, and_self]
  · obtain ⟨v', hv', rfl⟩ := hv.pointwise hleave hname
    obtain ⟨-, hpw, hst⟩ := leaving_kept users i u j v
    refine ⟨?_, ?_⟩
    · rw [managerOf_account hv, managerOf_account hv', hpw, hst]
    · rw [managerOf_seat hv']
      by_cases hk : k = name
      · subst hk
        obtain ⟨rfl, rfl⟩ := hv.unique hrec
        rw [seat_leaving_self hid]
        exact (Seating.vacate_self _ _).symm
      · exact seat_leaving hnames hsettled hrec hid hv hk

end View

/-! ### Actions and answers -/

/-- The memory after a request for an action: the table is that of the manager, and the answer is a refusal exactly
when the manager does not allow the action. -/
structure Carried (m m' : Memory) (a : Action Bytes Bytes Bytes) : Prop where
  table : managerOf m'.users = (managerOf m.users).perform a
  refused : Refused m' ↔ ¬ (managerOf m.users).Enabled a

/-- The handler does not wait, and when it returns, it has released both mutexes and the memory meets `Q`. -/
def Delivers {α : Type} (o : Outcome Mutex Memory α) (Q : Memory → Prop) : Prop :=
  match o with
  | .ret _ w => w.Free ∧ Q w.mem
  | .blocked _ => False
  | .fault => True

section Answers

variable {m m' : Memory} {a : Action Bytes Bytes Bytes}

theorem Carried.granted (ha : (managerOf m.users).Enabled a)
    (hview : managerOf m'.users = (managerOf m.users).effect a) (hnot : ¬ Refused m') : Carried m m' a :=
  ⟨by rw [hview, Manager.perform, if_pos ha], iff_of_false hnot (not_not_intro ha)⟩

private theorem Carried.denied (ha : ¬ (managerOf m.users).Enabled a) (husers : m'.users = m.users)
    (href : Refused m') :
    Carried m m' a :=
  ⟨by rw [husers, Manager.perform, if_neg ha], iff_of_true href ha⟩

/-- The one message that is sent decides. -/
private theorem refused_sent (hempty : m.outbox = []) {fd : Nat} {type : UInt32} (htype : type ∈ refusals)
    {source : CStr maxName} (hcolon : colon ∉ source.bytes) {data : Option (CStr maxData)} :
    Refused (m.sent fd (wireOf type source data)) :=
  ⟨(fd, wireOf type source data), by simp [hempty], type, htype, typeOf_wireOf type data hcolon⟩

private theorem not_refused_sent (hempty : m.outbox = []) {fd : Nat} {type : UInt32} (htype : type ∉ refusals)
    {source : CStr maxName} (hcolon : colon ∉ source.bytes) {data : Option (CStr maxData)} :
    ¬ Refused (m.sent fd (wireOf type source data)) := by
  rintro ⟨p, hp, type', htype', hread⟩
  rw [Memory.outbox_sent, hempty, List.nil_append, List.mem_singleton] at hp
  rw [hp, typeOf_wireOf type data hcolon] at hread
  exact htype (Option.some.inj hread ▸ htype')

variable {α β : Type} {Q : Memory → Prop} {o : Outcome Mutex Memory α}

private theorem delivers_bind_pure (b : β) : Delivers (o.bind fun _ => pure b) Q ↔ Delivers o Q := by
  cases o <;> rfl

private theorem delivers_ret {w : World Mutex Memory} (hw : w.Free) (x : α) (h : Q m) :
    Delivers (.ret x (w.setMem m)) Q := ⟨hw, h⟩

private theorem delivers_finish {w : World Mutex Memory} (hw : w.Free) {m : Option Memory} (h : ∀ m' ∈ m, Q m') :
    Delivers (finish m w) Q := by
  cases m with
  | none => trivial
  | some m' => exact ⟨hw, h m' rfl⟩

end Answers

/-! ### The requests of a user -/

section Requests

variable {w : World Mutex Memory} {source : CStr maxName} {i : Nat} {u : User}

private theorem enter_enabled (hrec : Record w.mem.users source.bytes i u) (hon : u.status = .online) :
    (managerOf w.mem.users).Online source.bytes := ⟨_, hon ▸ managerOf_account hrec⟩

private theorem create_carried (hw : w.Free) (hempty : w.mem.outbox = []) (hnames : (w.mem.users.map User.name).Nodup)
    (hsettled : ∀ u ∈ w.mem.users, u.Settled) (hcolon : colon ∉ source.bytes)
    (hrec : Record w.mem.users source.bytes i u) (hon : u.status = .online) (hin : u.inSession = .offline)
    {data : CStr maxData} (hdata : data.bytes ≠ notInSession.bytes) :
    Delivers (serverSideSessionCreate source data w) fun m' => Carried w.mem m' (.create source.bytes data.bytes) := by
  rw [run_serverSideSessionCreate hrec]
  simp only [hw .userList, hw .rw, Bool.false_eq_true, ↓reduceIte, created]
  have hseat : (managerOf w.mem.users).seat source.bytes = none := by
    rw [managerOf_seat hrec]
    simp [User.seat, hin]
  have hmembers := members_eq_empty hnames hsettled hdata
  split
  · rename_i hcount
    apply delivers_finish hw
    intro m' hm'
    obtain ⟨id, hid, rfl⟩ := Option.map_eq_some_iff.1 hm'
    refine .granted ⟨enter_enabled hrec hon, hseat, hmembers.2 hcount⟩ ?_ ?_
    · change managerOf (w.mem.users.modify i (User.create id)) = _
      rw [managerOf_modify_seat (f := User.create id) hrec (fun _ => rfl) rfl rfl, ← CStr.ofBytes?_eq_some.1 hid]
      rfl
    · exact not_refused_sent hempty (by decide) hcolon
  · rename_i hcount
    apply delivers_finish hw
    rintro m' ⟨⟩
    refine .denied (fun h => hcount (hmembers.1 h.2.2)) rfl ?_
    exact refused_sent hempty (by decide) hcolon

private theorem join_carried (hw : w.Free) (hempty : w.mem.outbox = []) (hnames : (w.mem.users.map User.name).Nodup)
    (hsettled : ∀ u ∈ w.mem.users, u.Settled) (hcap : ∀ id, id ≠ notInSession.bytes →
      countInSession w.mem.users id ≤ maxSessionUser) (hcolon : colon ∉ source.bytes)
    (hrec : Record w.mem.users source.bytes i u) (hon : u.status = .online)
    {data : CStr maxData} (hdata : data.bytes ≠ notInSession.bytes) :
    Delivers (serverSideSessionJoin source data w) fun m' => Carried w.mem m' (.join source.bytes data.bytes) := by
  rw [run_serverSideSessionJoin hrec]
  simp only [hw .userList, hw .rw, Bool.false_eq_true, ↓reduceIte, joined]
  have hseat : (managerOf w.mem.users).seat source.bytes = u.seat := managerOf_seat hrec
  have hmembers := members_eq_empty hnames hsettled hdata
  obtain ⟨-, hcard⟩ := ncard_members hnames hsettled hdata
  have hroom := hcap data.bytes hdata
  cases href : joinRefusal w.mem.users u data.bytes with
  | none =>
    obtain ⟨hin, hcount⟩ := joinRefusal_eq_none href
    have hfull := room_of_joinRefusal href
    have hrole := (hsettled u hrec.mem).outside hin
    apply delivers_finish hw
    intro m' hm'
    obtain ⟨id, hid, rfl⟩ := Option.map_eq_some_iff.1 hm'
    refine .granted ⟨enter_enabled hrec hon, ?_, mt hmembers.1 hcount, ?_⟩ ?_ ?_
    · rw [hseat]
      simp [User.seat, hin]
    · rw [hcard]
      exact Nat.lt_of_le_of_ne hroom hfull
    · change managerOf (w.mem.users.modify i (User.join id)) = _
      rw [managerOf_modify_seat (f := User.join id) hrec (fun _ => rfl) rfl rfl, ← CStr.ofBytes?_eq_some.1 hid]
      simp [User.seat, User.join, hrole, Manager.effect]
    · exact not_refused_sent hempty (by decide) hcolon
  | some code =>
    apply delivers_finish hw
    rintro m' ⟨⟩
    refine .denied ?_ rfl ?_
    · rintro ⟨-, hout, hsome, hlt⟩
      rw [hseat] at hout
      have hin : u.inSession ≠ .online := by
        intro hin
        simp [User.seat, hin] at hout
      rw [hcard] at hlt
      simp [joinRefusal, hin, mt hmembers.2 hsome, Nat.ne_of_lt hlt] at href
    · exact refused_sent hempty (by decide) hcolon

private theorem leave_carried (hw : w.Free) (hempty : w.mem.outbox = []) (hnames : (w.mem.users.map User.name).Nodup)
    (hsettled : ∀ u ∈ w.mem.users, u.Settled) (hrec : Record w.mem.users source.bytes i u)
    (hin : u.inSession = .online) :
    Delivers (serverSideSessionLeave source w) fun m' => Carried w.mem m' (.leave source.bytes) := by
  have hid := (hsettled u hrec.mem).flag.1 hin
  rw [run_serverSideSessionLeave hrec]
  simp only [hw .userList, hw .rw, hin, hid, Bool.false_eq_true, reduceCtorEq, ↓reduceIte]
  refine delivers_ret hw _ (.granted ?_ (managerOf_leave hnames hsettled hrec hid) ?_)
  · simp [Manager.Enabled, managerOf_seat hrec, User.seat, hin]
  · have hgranted : Granted w.mem := fun p hp => by simp [hempty] at hp
    exact (hgranted.left i u.sessionId.bytes).not_refused

private theorem exit_carried (hw : w.Free) (hempty : w.mem.outbox = []) (hnames : (w.mem.users.map User.name).Nodup)
    (hsettled : ∀ u ∈ w.mem.users, u.Settled) (hrec : Record w.mem.users source.bytes i u)
    (hon : u.status = .online) :
    Delivers (serverSideUserExit source w) fun m' => Carried w.mem m' (.exit source.bytes) := by
  have hgranted : Granted w.mem := fun p hp => by simp [hempty] at hp
  have haccount := managerOf_account hrec
  rw [run_serverSideUserExit hrec]
  simp only [hw .userList, hw .rw, Bool.false_eq_true, ↓reduceIte]
  split
  · rename_i hin
    have hseat : (managerOf w.mem.users).seat source.bytes = none := by
      rw [managerOf_seat hrec]
      simp [User.seat, hin]
    have hstay : (managerOf w.mem.users).seat.vacate source.bytes = (managerOf w.mem.users).seat := by
      funext k
      by_cases hk : k = source.bytes
      · rw [hk, Seating.vacate_self, hseat]
      · exact Seating.vacate_kept hk fun s h => Seating.not_mem_members hseat s h.1
    refine delivers_ret hw _ (.granted (enter_enabled hrec hon) ?_ hgranted.not_refused)
    change managerOf (w.mem.users.modify i User.exit) = _
    rw [managerOf_modify_account (f := User.exit) hrec (fun _ => rfl) rfl]
    simp [Manager.effect, hstay, haccount, User.exit]
  · have hin : u.inSession = .online := by cases h : u.inSession <;> simp_all
    have hid := (hsettled u hrec.mem).flag.1 hin
    simp only [hid, ↓reduceIte]
    have hgranted' : Granted (exited (left w.mem i u.sessionId.bytes) i) := (hgranted.left i u.sessionId.bytes).congr rfl
    refine delivers_ret hw _ (.granted (enter_enabled hrec hon) ?_ hgranted'.not_refused)
    obtain ⟨v, hrec', hleave⟩ := hrec.pointwise (leaves_leftTable hrec hin hid) fun _ _ _ h => h.name_eq
    have hv : v = u.leave := by
      cases hleave with
      | same h => exact absurd hrec.found h
      | own _ _ _ => rfl
      | last h =>
        obtain ⟨j, own, hown, -, -, hne, -⟩ := h
        exact absurd (hrec.unique hown).1 hne
    subst hv
    change managerOf ((leftTable w.mem.users i u.sessionId.bytes).modify i User.exit) = _
    rw [managerOf_modify_account (f := User.exit) hrec' (fun _ => rfl) rfl, managerOf_leave hnames hsettled hrec hid]
    simp [Manager.effect, haccount, User.exit, User.leave]

/-- The target of a kick or a promotion, for a sender who is an administrator. -/
private theorem commands_iff (habsent : ∀ u ∈ w.mem.users, u.Absent)
    (hrec : Record w.mem.users source.bytes i u) (hin : u.inSession = .online) (hrole : u.role = .admin)
    (target : Bytes) : (managerOf w.mem.users).Commands source.bytes target ↔ refusal w.mem.users target u = none := by
  have hseat : (managerOf w.mem.users).seat source.bytes = some (u.sessionId.bytes, .admin) := by
    rw [managerOf_seat hrec, seat_eq_some]
    exact ⟨hin, rfl, hrole⟩
  constructor
  · rintro ⟨s, hs, ht⟩
    obtain rfl : u.sessionId.bytes = s := congrArg Prod.fst (Option.some.inj (hseat.symm.trans hs))
    rcases record_or_none w.mem.users target with h | ⟨j, t, hrec'⟩
    · rw [managerOf_seat_none h] at ht
      cases ht
    · rw [managerOf_seat hrec', seat_eq_some] at ht
      obtain ⟨htin, htid, htrole⟩ := ht
      have hton : t.status = .online := by
        cases hst : t.status with
        | online => rfl
        | offline => cases htin.symm.trans (habsent t hrec'.mem hst)
      have hfound : databaseSearchUser w.mem.users target = some j := hrec'.found
      have hsame : t.sessionId = u.sessionId := CStr.ext htid
      simp [refusal, hfound, hrec'.get, hton, htin, hsame, htrole]
  · intro href
    obtain ⟨j, t, ht, -, htin, htid, htrole⟩ := refusal_eq_none href
    refine ⟨u.sessionId.bytes, hseat, ?_⟩
    rw [managerOf_seat ht, seat_eq_some]
    exact ⟨htin, congrArg CStr.bytes htid, htrole⟩

private theorem kick_carried (hw : w.Free) (hempty : w.mem.outbox = [])
    (habsent : ∀ u ∈ w.mem.users, u.Absent) (hcolon : colon ∉ source.bytes)
    (hrec : Record w.mem.users source.bytes i u) (hin : u.inSession = .online) (hrole : u.role = .admin)
    (target : Bytes) :
    Delivers (serverSideKickUser source target w) fun m' => Carried w.mem m' (.kick source.bytes target) := by
  have hiff := commands_iff habsent hrec hin hrole target
  cases href : refusal w.mem.users target u with
  | some code =>
    rw [serverSideKickUser, run_withTarget (by decide) hrec, href, hw .userList]
    refine delivers_ret hw _ (.denied (fun h => ?_) rfl ?_)
    · cases href.symm.trans (hiff.1 h)
    · exact refused_sent hempty (by decide) hcolon
  | none =>
    obtain ⟨j, t, ht, -⟩ := refusal_eq_none href
    rw [run_serverSideKickUser hrec ht, href, hw .userList]
    refine delivers_ret hw _ (.granted (hiff.2 href) ?_ ?_)
    · change managerOf (w.mem.users.modify j User.kick) = _
      rw [managerOf_modify_seat (f := User.kick) ht (fun _ => rfl) rfl rfl]
      rfl
    · have hgranted : Granted (w.mem.setUsers (w.mem.users.modify j User.kick)) := fun p hp => by
        simp [hempty] at hp
      exact ((hgranted.sent (by decide) _ (by decide) _).sent (by decide) _ hcolon _).not_refused

/-- A promotion exchanges the two seats. -/
private theorem promote_carried (hw : w.Free) (hempty : w.mem.outbox = [])
    (habsent : ∀ u ∈ w.mem.users, u.Absent) (hcolon : colon ∉ source.bytes)
    (hrec : Record w.mem.users source.bytes i u) (hin : u.inSession = .online) (hrole : u.role = .admin)
    (target : Bytes) :
    Delivers (serverSidePromoteUser source target w) fun m' => Carried w.mem m' (.promote source.bytes target) := by
  have hiff := commands_iff habsent hrec hin hrole target
  cases href : refusal w.mem.users target u with
  | some code =>
    rw [serverSidePromoteUser, run_withTarget (by decide) hrec, href, hw .userList]
    refine delivers_ret hw _ (.denied (fun h => ?_) rfl ?_)
    · cases href.symm.trans (hiff.1 h)
    · exact refused_sent hempty (by decide) hcolon
  | none =>
    obtain ⟨j, t, ht, -, htin, htid, htrole⟩ := refusal_eq_none href
    have hne : target ≠ source.bytes := by
      rintro rfl
      obtain ⟨-, rfl⟩ := ht.unique hrec
      cases hrole.symm.trans htrole
    rw [run_serverSidePromoteUser hrec ht, href, hw .userList]
    refine delivers_ret hw _ (.granted (hiff.2 href) ?_ ?_)
    · have hrec' : Record (w.mem.users.modify j (User.setRole .admin)) source.bytes i u :=
        hrec.modify_ne (fun _ => rfl) (ht.ne hrec hne)
      change managerOf ((w.mem.users.modify j (User.setRole .admin)).modify i (User.setRole .user)) = _
      rw [managerOf_modify_seat (f := User.setRole .user) hrec' (fun _ => rfl) rfl rfl,
        managerOf_modify_seat (f := User.setRole .admin) ht (fun _ => rfl) rfl rfl]
      simp only [Manager.effect, managerOf_seat hrec, managerOf_seat ht]
      simp [User.seat, User.setRole, hin, htin, htid, hrole, htrole]
    · have hgranted : Granted (w.mem.setUsers
          ((w.mem.users.modify j (User.setRole .admin)).modify i (User.setRole .user))) := fun p hp => by
        simp [hempty] at hp
      exact ((hgranted.sent (by decide) _ (by decide) _).sent (by decide) _ hcolon _).not_refused

end Requests

/-! ### The requests that name an account or a session -/

section Dispatch

variable {w : World Mutex Memory} {socketFd : Nat} {conn : Conn} {received : Message} {claimed : CStr maxName}

private theorem login_carried (hw : w.Free) (hempty : w.mem.outbox = []) (hcolon : colon ∉ claimed.bytes)
    (htype : received.type = MsgType.login) (buffer : Bytes) :
    Delivers (dispatch socketFd conn buffer received claimed w) fun m' =>
      Carried w.mem m' (.login claimed.bytes (cstr received.data.bytes)) := by
  have hack := run_fillAndSend (show MsgType.loAck ≠ MsgType.message by decide)
  have hnak := run_fillAndSend (show MsgType.loNak ≠ MsgType.message by decide)
  simp only [dispatch, htype, ↓reduceIte, run_bind, run_verifyLogin, bind_ret]
  split
  · rename_i hcode
    obtain ⟨i, u, hrec, hoff, hpw⟩ := loginCode_success hcode
    have haccount := managerOf_account hrec
    simp only [run_bind, run_userLogin hrec, hw .userList, Bool.false_eq_true, ↓reduceIte, bind_ret, hack, run_pure]
    refine delivers_ret hw _ (.granted ?_ ?_ ?_)
    · rw [hpw, hoff] at haccount
      exact haccount
    · change managerOf (w.mem.users.modify i (User.login .online socketFd)) = _
      rw [managerOf_modify_account (f := User.login .online socketFd) hrec (fun _ => rfl) rfl, ← hpw]
      rfl
    · exact not_refused_sent hempty (by decide) hcolon
  · rename_i hcode
    simp only [run_bind, hnak, bind_ret, run_pure]
    refine delivers_ret hw _ (.denied (fun h => hcode ?_) rfl ?_)
    · rcases record_or_none w.mem.users claimed.bytes with hnone | ⟨i, u, hrec⟩
      · cases h.symm.trans (managerOf_account_none hnone)
      · have haccount := h.symm.trans (managerOf_account hrec)
        simp only [Option.some.injEq, Prod.mk.injEq] at haccount
        rw [haccount.1]
        exact loginCode_offline hrec haccount.2.symm
    · exact refused_sent hempty (by decide) hcolon

private theorem register_carried (hw : w.Free) (hempty : w.mem.outbox = []) (hnames : (w.mem.users.map User.name).Nodup)
    (hcolon : colon ∉ claimed.bytes) (htype : received.type = MsgType.create) (buffer : Bytes) :
    Delivers (dispatch socketFd conn buffer received claimed w) fun m' =>
      Carried w.mem m' (.register claimed.bytes (cstr received.data.bytes)) := by
  have hne : ¬ MsgType.create = MsgType.login := by decide
  have hack := run_fillAndSend (show MsgType.rgAck ≠ MsgType.message by decide)
  have hnak := run_fillAndSend (show MsgType.rgNak ≠ MsgType.message by decide)
  simp only [dispatch, htype, hne, ↓reduceIte, run_bind, run_userRegistration, hw .userList, hw .rw,
    Bool.false_eq_true]
  cases hpw : CStr.ofBytes? maxPasswordLength (cstr received.data.bytes) with
  | none => trivial
  | some password =>
    have hbytes := CStr.ofBytes?_eq_some.1 hpw
    have hcount := ncard_accounts hnames
    have henabled : (managerOf w.mem.users).Enabled (.register claimed.bytes (cstr received.data.bytes)) ↔
        databaseSearchUser w.mem.users claimed.bytes = none ∧ w.mem.users.length < maxUserCount := by
      simp only [Manager.Enabled, hcount, and_congr_left_iff]
      intro _
      rcases record_or_none w.mem.users claimed.bytes with hnone | ⟨i, u, hrec⟩
      · simp [managerOf_account_none hnone, hnone]
      · have hfound : databaseSearchUser w.mem.users claimed.bytes = some i := hrec.found
        simp [managerOf_account hrec, hfound]
    dsimp only
    by_cases hfull : w.mem.users.length ≥ maxUserCount
    · have hreg : registration w.mem claimed password socketFd = (.userListFull, w.mem) := by
        simp [registration, addUser, hfull]
      simp only [hreg, reduceCtorEq, ↓reduceIte, run_bind, bind_ret, hnak, run_pure]
      refine delivers_ret hw _ (.denied (fun h => Nat.not_lt.2 hfull (henabled.1 h).2) rfl ?_)
      exact refused_sent hempty (by decide) hcolon
    · by_cases hdup : databaseSearchUser w.mem.users claimed.bytes = none
      · rcases registration_cases w.mem claimed password socketFd with ⟨hreg, hroom, hnew⟩ | ⟨hcode, -⟩
        · simp only [hreg, ↓reduceIte, run_bind, bind_ret, hack, run_pure]
          refine delivers_ret hw _ (.granted (henabled.2 ⟨hnew, hroom⟩) ?_ ?_)
          · change managerOf (w.mem.users ++ [registeredUser claimed password socketFd]) = _
            rw [managerOf_append (u := registeredUser claimed password socketFd) hnew rfl rfl, ← hbytes]
            rfl
          · exact not_refused_sent hempty (by decide) hcolon
        · have hdup' : databaseSearchUser w.mem.users (registeredUser claimed password socketFd).username.bytes = none := hdup
          simp [registration, addUser, hfull, hdup'] at hcode
      · have hdup' : databaseSearchUser w.mem.users (registeredUser claimed password socketFd).username.bytes ≠ none := hdup
        have hreg : registration w.mem claimed password socketFd = (.userAlreadyExist, w.mem) := by
          simp [registration, addUser, hfull, hdup']
        simp only [hreg, reduceCtorEq, ↓reduceIte, run_bind, bind_ret, hnak, run_pure]
        refine delivers_ret hw _ (.denied (fun h => hdup (henabled.1 h).1) rfl ?_)
        exact refused_sent hempty (by decide) hcolon

/-- A request for the users of a session is refused when there is nobody in it. -/
private theorem inspect_delivers (hw : w.Free) (htype : received.type = MsgType.sessQuery) (buffer : Bytes) :
    Delivers (dispatch socketFd conn buffer received claimed w) fun m' => ∃ data, m' = w.mem.sent socketFd (wireOf
      (if countInSession w.mem.users (cstr received.data.bytes) = 0 then MsgType.sqNak else MsgType.sqAck)
      claimed data) := by
  have hack := run_fillAndSend (show MsgType.sqAck ≠ MsgType.message by decide)
  have hnak := run_fillAndSend (show MsgType.sqNak ≠ MsgType.message by decide)
  rw [dispatch_sessQuery htype]
  cases hdata : received.data.text? with
  | none => trivial
  | some data =>
    rw [CArray.cstr_of_text? hdata]
    simp only [run_bind, run_checked_some, bind_ret, run_getActiveUserListInASession, hw .rw, Bool.false_eq_true,
      ↓reduceIte]
    split
    · simp only [bind_ret, run_bind, hnak, run_pure]
      exact delivers_ret hw _ ⟨_, rfl⟩
    · cases CStr.ofBytes? maximumBufferSize (sessionUserText w.mem.users data.bytes) with
      | none => trivial
      | some list =>
        cases hcopy : list.copy? maxData with
        | none =>
          simp only [bind_ret, hcopy, run_bind, run_checked_none, bind_fault]
          trivial
        | some text =>
          simp only [bind_ret, hcopy, run_bind, run_checked_some, hack, run_pure]
          exact delivers_ret hw _ ⟨_, rfl⟩

private theorem query_delivers (hw : w.Free) (htype : received.type = MsgType.query) (buffer : Bytes) :
    Delivers (dispatch socketFd conn buffer received claimed w) fun m' => m'.users = w.mem.users := by
  have hack := run_fillAndSend (show MsgType.quAck ≠ MsgType.message by decide)
  simp only [dispatch_query htype, run_bind, run_getActiveUserListInDatabase, hw .rw, Bool.false_eq_true, ↓reduceIte]
  cases CStr.ofBytes? maximumBufferSize (activeUserText w.mem.users) with
  | none => trivial
  | some list =>
    cases hcopy : list.copy? maxData with
    | none =>
      simp only [bind_ret, hcopy, run_bind, run_checked_none, bind_fault]
      trivial
    | some data =>
      simp only [bind_ret, hcopy, run_bind, run_checked_some, hack, run_pure]
      exact delivers_ret hw _ rfl

private theorem message_delivers (hw : w.Free) (htype : received.type = MsgType.message)
    (hsize : received.size.toNat ≤ maxData) (buffer : Bytes) :
    Delivers (dispatch socketFd conn buffer received claimed w) fun m' => m'.users = w.mem.users := by
  rcases record_or_none w.mem.users claimed.bytes with h | ⟨i, u, hrec⟩
  · rw [message_notFound htype hsize buffer h]
    trivial
  · rw [message_found htype hsize buffer hrec, hw .userList]
    exact delivers_ret hw _ rfl

end Dispatch

/-! ### What an event asks for -/

/-- The action that a message asks for.  Who asks for the users who are in no session asks for no session. -/
def requestedAction (source claimed : Bytes) (received : Message) : Option (Action Bytes Bytes Bytes) :=
  let data := cstr received.data.bytes
  if received.type = MsgType.login then some (.login claimed data)
  else if received.type = MsgType.create then some (.register claimed data)
  else if received.type = MsgType.exit then some (.exit source)
  else if received.type = MsgType.join then some (.join source data)
  else if received.type = MsgType.newSess then some (.create source data)
  else if received.type = MsgType.leaveSess then some (.leave source)
  else if received.type = MsgType.sessQuery then (if data = notInSession.bytes then none else some (.inspect data))
  else if received.type = MsgType.kick then some (.kick source data)
  else if received.type = MsgType.promote then some (.promote source data)
  else none

/-- The action that an event asks for. -/
def askedAction (s : ServerState) : Event → Option (Action Bytes Bytes Bytes)
  | .accept _ _ => none
  | .recv socketFd chunk => (s.conns socketFd).conn?.bind fun conn =>
      (decode (recvBuffer chunk)).bind fun p => requestedAction conn.source.bytes p.2.bytes p.1
  | .disconnect socketFd => (s.conns socketFd).conn?.bind fun conn =>
      if conn.serverConnectionStatus = .online then some (.exit conn.source.bytes) else none

/-- The request of a connection that is logged in, let through by the guards of its client. -/
def Legitimate (s : ServerState) (e : Event) : Prop := OfLoggedIn s e ∧ GuardedEvent s e

instance (s : ServerState) : DecidablePred (Legitimate s) :=
  fun e => inferInstanceAs (Decidable (OfLoggedIn s e ∧ GuardedEvent s e))

/-- The memory after an event that asks for an action, or for none. -/
def Handled (m m' : Memory) : Option (Action Bytes Bytes Bytes) → Prop
  | none => m'.users = m.users
  | some a => Carried m m' a

/-- The facts on which a state stands for a manager. -/
structure Manageable (s : ServerState) : Prop where
  free : s.world.Free
  names : (s.world.mem.users.map User.name).Nodup
  administered : Administered s.world.mem.users
  absent : ∀ u ∈ s.world.mem.users, u.Absent
  capacity : ∀ id, id ≠ notInSession.bytes → countInSession s.world.mem.users id ≤ maxSessionUser
  owned : Owned s
  colons : ∀ fd conn, s.conns fd = .running conn → conn.serverConnectionStatus = .online → colon ∉ conn.source.bytes

section Serve

variable {s t : ServerState} {e : Event} {socketFd : Nat} {conn : Conn} {chunk : Bytes} {received : Message}
  {claimed : CStr maxName}

theorem Delivers.mono {α : Type} {o : Outcome Mutex Memory α} {P Q : Memory → Prop} (h : Delivers o P)
    (hpq : ∀ m, P m → Q m) : Delivers o Q := by
  cases o with
  | ret a w => exact ⟨h.1, hpq _ h.2⟩
  | blocked w => exact h
  | fault => trivial

/-- The requests that need no record of the sender. -/
private theorem anonymous_handled (hm : Manageable s) (hdec : decode (recvBuffer chunk) = some (received, claimed))
    (htype : received.type ∈ [MsgType.login, MsgType.create, MsgType.query, MsgType.sessQuery, MsgType.message] ∨
      received.type ∉ requests) :
    Delivers (serve socketFd conn chunk s.clear) fun m' =>
      Handled s.clear.mem m' (requestedAction conn.source.bytes claimed.bytes received) := by
  have hfree : s.clear.Free := hm.free
  obtain ⟨-, hcolon, hsize⟩ := decode_eq_some hdec
  rw [serve_eq hdec]
  simp only [List.mem_cons, List.not_mem_nil, or_false] at htype
  rcases htype with (hlogin | hcreate | hquery | hsess | hmessage) | hother
  · have hask : requestedAction conn.source.bytes claimed.bytes received =
        some (.login claimed.bytes (cstr received.data.bytes)) := by
      simp only [requestedAction, hlogin, ↓reduceIte]
    rw [hask]
    exact login_carried hfree rfl hcolon hlogin _
  · have hask : requestedAction conn.source.bytes claimed.bytes received =
        some (.register claimed.bytes (cstr received.data.bytes)) := by
      simp only [requestedAction, hcreate]
      rfl
    rw [hask]
    exact register_carried hfree rfl hm.names hcolon hcreate _
  · have hask : requestedAction conn.source.bytes claimed.bytes received = none := by
      simp only [requestedAction, hquery]
      rfl
    rw [hask]
    exact query_delivers hfree hquery _
  · have hask : requestedAction conn.source.bytes claimed.bytes received =
        if cstr received.data.bytes = notInSession.bytes then none
        else some (.inspect (cstr received.data.bytes)) := by
      simp only [requestedAction, hsess]
      rfl
    rw [hask]
    refine (inspect_delivers hfree hsess _).mono ?_
    rintro m' ⟨data, rfl⟩
    by_cases hid : cstr received.data.bytes = notInSession.bytes
    · rw [if_pos hid]
      rfl
    · rw [if_neg hid]
      have hmembers := members_eq_empty hm.names hm.administered.settled hid
      have henabled : (managerOf s.clear.mem.users).Enabled (.inspect (cstr received.data.bytes)) ↔
          ¬ countInSession s.clear.mem.users (cstr received.data.bytes) = 0 := not_congr hmembers
      by_cases hcount : countInSession s.clear.mem.users (cstr received.data.bytes) = 0
      · rw [if_pos hcount]
        exact .denied (fun h => henabled.1 h hcount) rfl (refused_sent rfl (by decide) hcolon)
      · rw [if_neg hcount]
        exact .granted (henabled.2 hcount) rfl (not_refused_sent rfl (by decide) hcolon)
  · have hask : requestedAction conn.source.bytes claimed.bytes received = none := by
      simp only [requestedAction, hmessage]
      rfl
    rw [hask]
    exact message_delivers hfree hmessage hsize _
  · have hask : requestedAction conn.source.bytes claimed.bytes received = none := by
      simp only [requests, List.mem_cons, List.not_mem_nil, or_false, not_or] at hother
      obtain ⟨h₁, h₂, h₃, h₄, h₅, h₆, h₇, h₈, h₉, h₁₀, h₁₁⟩ := hother
      simp only [requestedAction, h₁, h₂, h₃, h₄, h₅, h₆, h₈, h₁₀, h₁₁, ↓reduceIte]
    rw [hask]
    have hfresh : ¬ (received.type = MsgType.login ∨ received.type = MsgType.create) := by
      rintro (h | h)
      · exact hother (by simp [requests, h])
      · exact hother (by simp [requests, h])
    simp only [requests, List.mem_cons, List.not_mem_nil, or_false, not_or] at hother
    obtain ⟨h₁, h₂, h₃, h₄, h₅, h₆, h₇, h₈, h₉, h₁₀, h₁₁⟩ := hother
    simp only [dispatch, h₁, h₂, h₃, h₄, h₅, h₆, h₇, h₈, h₉, h₁₀, h₁₁, ↓reduceIte]
    split
    · exact delivers_ret hfree _ rfl
    · trivial

/-- The requests that act for the name of the connection. -/
private theorem named_handled (hm : Manageable s) (hconn : s.conns socketFd = .running conn)
    (hdec : decode (recvBuffer chunk) = some (received, claimed)) (hlegit : Legitimate s (.recv socketFd chunk))
    (htype : received.type ∈ [MsgType.exit, MsgType.join, MsgType.newSess, MsgType.leaveSess, MsgType.kick,
      MsgType.promote]) :
    Delivers (serve socketFd conn chunk s.clear) fun m' =>
      Handled s.clear.mem m' (requestedAction conn.source.bytes claimed.bytes received) := by
  have hfree : s.clear.Free := hm.free
  have hmem : conn ∈ (s.conns socketFd).conn? := by rw [hconn]; rfl
  have hsettled := hm.administered.settled
  have honline : conn.serverConnectionStatus = .online := by
    rcases hlegit.1 conn hmem _ hdec with h | h | h
    · exact h
    · have hlogin : received.type = MsgType.login := h
      rw [hlogin] at htype
      exact absurd htype (by decide)
    · have hcreate : received.type = MsgType.create := h
      rw [hcreate] at htype
      exact absurd htype (by decide)
  obtain ⟨i, u, hrec, hon⟩ := hm.owned.online _ _ hconn honline
  have hcolon := hm.colons _ _ hconn honline
  obtain ⟨hjoin, hnew, hleave, hadmin⟩ := hlegit.2 conn hmem _ hdec u (ownRecord_eq hrec)
  simp only [List.mem_cons, List.not_mem_nil, or_false] at htype
  have hrec' : Record s.clear.mem.users conn.source.bytes i u := hrec
  rcases htype with h | h | h | h | h | h
  · have hask : requestedAction conn.source.bytes claimed.bytes received = some (.exit conn.source.bytes) := by
      simp only [requestedAction, h]
      rfl
    rw [hask, serve_exit hdec h, delivers_bind_pure]
    exact exit_carried hfree rfl hm.names hsettled hrec' hon
  · have hask : requestedAction conn.source.bytes claimed.bytes received =
        some (.join conn.source.bytes (cstr received.data.bytes)) := by
      simp only [requestedAction, h]
      rfl
    rw [hask]
    cases hdata : received.data.text? with
    | none =>
      rw [serve_unclosed hdec (Or.inl h) hdata]
      trivial
    | some data =>
      have htext := CArray.cstr_of_text? hdata
      rw [htext, serve_join hdec h hdata, delivers_bind_pure]
      exact join_carried hfree rfl hm.names hsettled hm.capacity hcolon hrec' hon (htext ▸ (hjoin h).2)
  · have hask : requestedAction conn.source.bytes claimed.bytes received =
        some (.create conn.source.bytes (cstr received.data.bytes)) := by
      simp only [requestedAction, h]
      rfl
    rw [hask]
    cases hdata : received.data.text? with
    | none =>
      rw [serve_unclosed hdec (Or.inr h) hdata]
      trivial
    | some data =>
      have htext := CArray.cstr_of_text? hdata
      obtain ⟨hin, -, hproper⟩ := hnew h
      rw [htext, serve_create hdec h hdata, delivers_bind_pure]
      exact create_carried hfree rfl hm.names hsettled hcolon hrec' hon hin (htext ▸ hproper)
  · have hask : requestedAction conn.source.bytes claimed.bytes received = some (.leave conn.source.bytes) := by
      simp only [requestedAction, h]
      rfl
    rw [hask, serve_leave hdec h, delivers_bind_pure]
    exact leave_carried hfree rfl hm.names hsettled hrec' (hleave h)
  · have hask : requestedAction conn.source.bytes claimed.bytes received =
        some (.kick conn.source.bytes (cstr received.data.bytes)) := by
      simp only [requestedAction, h]
      rfl
    rw [hask, serve_kick hdec h, delivers_bind_pure]
    exact kick_carried hfree rfl hm.absent hcolon hrec' (hadmin (Or.inl h)).1 (hadmin (Or.inl h)).2 _
  · have hask : requestedAction conn.source.bytes claimed.bytes received =
        some (.promote conn.source.bytes (cstr received.data.bytes)) := by
      simp only [requestedAction, h]
      rfl
    rw [hask, serve_promote hdec h, delivers_bind_pure]
    exact promote_carried hfree rfl hm.absent hcolon hrec' (hadmin (Or.inr h)).1 (hadmin (Or.inr h)).2 _

private theorem serve_handled (hm : Manageable s) (hconn : s.conns socketFd = .running conn)
    (hdec : decode (recvBuffer chunk) = some (received, claimed)) (hlegit : Legitimate s (.recv socketFd chunk)) :
    Delivers (serve socketFd conn chunk s.clear) fun m' =>
      Handled s.clear.mem m' (requestedAction conn.source.bytes claimed.bytes received) := by
  by_cases hnamed : received.type ∈ [MsgType.exit, MsgType.join, MsgType.newSess, MsgType.leaveSess, MsgType.kick,
      MsgType.promote]
  · exact named_handled hm hconn hdec hlegit hnamed
  · refine anonymous_handled hm hdec ?_
    by_cases hreq : received.type ∈ requests
    · left
      simp only [requests, List.mem_cons, List.not_mem_nil, or_false] at hreq hnamed ⊢
      tauto
    · exact Or.inr hreq

/-- A connection that has logged in leaves as if by `EXIT`. -/
private theorem disconnect_handled (hm : Manageable s) (hconn : s.conns socketFd = .running conn) :
    Delivers (serveDisconnect conn s.clear) fun m' => Handled s.clear.mem m' (askedAction s (.disconnect socketFd)) := by
  simp only [askedAction, hconn, Slot.conn?, Option.bind_some, serveDisconnect]
  cases hst : conn.serverConnectionStatus with
  | offline => exact ⟨hm.free, rfl⟩
  | online =>
    obtain ⟨i, u, hrec, hon⟩ := hm.owned.online _ _ hconn hst
    simp only [↓reduceIte, run_bind, delivers_bind_pure]
    exact exit_carried (w := s.clear) hm.free rfl hm.names hm.administered.settled hrec hon

/-- An event is handled as the manager has it; its thread does not wait, and leaves both mutexes free. -/
private theorem turn_handled (hm : Manageable s) (hlegit : Legitimate s e) (hturn : Turn s e t) :
    t.conns e.socket ≠ .stuck ∧ t.world.Free ∧ Handled s.clear.mem t.world.mem (askedAction s e) := by
  have hslot : ∀ {fd w slot}, slot ≠ Slot.stuck → (s.setConn fd w slot).conns fd ≠ .stuck := by
    intro fd w slot hne
    simpa [ServerState.setConn] using hne
  cases hturn with
  | accepted _ _ => exact ⟨hslot (by simp), hm.free, rfl⟩
  | @served socketFd chunk conn received claimed r w hconn hdec hrun _ =>
    have h := serve_handled hm hconn hdec hlegit
    rw [hrun] at h
    simp only [askedAction, hconn, Slot.conn?, Option.bind_some, hdec]
    refine ⟨hslot ?_, h⟩
    cases r <;> simp [slotOf]
  | @recvWaits socketFd chunk conn w hconn hrun _ =>
    cases hdec : decode (recvBuffer chunk) with
    | none => simp [serve, hdec] at hrun
    | some p =>
      have h := serve_handled hm hconn hdec hlegit
      rw [hrun] at h
      exact h.elim
  | @disconnected socketFd conn w hconn hrun _ =>
    have h := disconnect_handled hm hconn
    rw [hrun] at h
    exact ⟨hslot (by simp), h⟩
  | @disconnectWaits socketFd conn w hconn hrun _ =>
    have h := disconnect_handled hm hconn
    rw [hrun] at h
    exact h.elim

end Serve

/-! ### Runs -/

private theorem reservedFree_of_guarded {s : ServerState} {e : Event} (h : GuardedEvent s e) : ReservedFree s e := by
  cases e with
  | accept => trivial
  | disconnect => trivial
  | recv socketFd chunk =>
    intro conn hconn p hdec own hown htakes
    obtain ⟨hjoin, hnew, -, -⟩ := h conn hconn p hdec own hown
    obtain ⟨-, -, htext, ⟨htype, -⟩ | ⟨htype, -⟩⟩ := htakes
    · exact (hjoin htype).2 htext
    · exact (hnew htype).2.2 htext

theorem Turn.capacity {s t : ServerState} {e : Event} (hturn : Turn s e t) {id : Bytes} (hid : id ≠ notInSession.bytes)
    (hcap : countInSession s.world.mem.users id ≤ maxSessionUser) :
    countInSession t.world.mem.users id ≤ maxSessionUser := by
  have hwaits : ∀ {w : World Mutex Memory}, w.mem = s.clear.mem → countInSession w.mem.users id ≤ maxSessionUser := by
    intro w hmem
    rw [hmem]
    exact hcap
  cases hturn with
  | accepted _ _ => exact hcap
  | served _ _ _ hserved => exact hserved.capacity hid hcap
  | recvWaits _ _ hmem => exact hwaits hmem
  | disconnected _ _ hserved =>
    rcases hserved with ⟨-, hmem⟩ | ⟨-, hx⟩
    · exact hwaits hmem
    · exact hx.capacity hid hcap
  | disconnectWaits _ _ hmem => exact hwaits hmem

private theorem manageable_started {file : Bytes} {users : List User} (hload : SetUpDatabase file users) :
    Manageable (started file users) where
  free := fun _ => rfl
  names := (loads_iff.2 hload).names List.nodup_nil
  administered := administered_of_reachable (.init ⟨file, users, hload, rfl⟩)
  absent := hload.forall_users fun _ _ _ => rfl
  capacity id hid := by
    have hloaded : ∀ u ∈ users, u.sessionId = notInSession := hload.forall_users fun _ _ => rfl
    have hzero : countInSession users id = 0 := by
      refine List.countP_eq_zero.2 fun u hu => ?_
      simpa [hloaded u hu] using Ne.symm hid
    change countInSession users id ≤ maxSessionUser
    omega
  owned := ⟨fun fd conn hconn => (by cases hconn), fun fd fd' conn conn' hconn => (by cases hconn)⟩
  colons fd conn hconn := by cases hconn

theorem manageable_of_reachable {s : ServerState} (hr : Reachable (server.when Legitimate) s) : Manageable s := by
  induction hr with
  | init h =>
    obtain ⟨file, users, hload, rfl⟩ := h
    exact manageable_started hload
  | @step s t e hr hst ih =>
    have hturn := ServerState.turn hst.2
    have hr' := hr.step hst
    refine ⟨(turn_handled ih hst.1 hturn).2.1, hturn.names ih.names,
      administered_of_reachable (hr'.when_mono fun _ _ _ h => h.2),
      absent_of_reachable (hr'.when_mono fun _ _ _ h => ⟨h.1, reservedFree_of_guarded h.2⟩),
      fun id hid => hturn.capacity hid (ih.capacity id hid), ih.owned.turn hturn hst.1.1, fun fd conn hconn hon => ?_⟩
    exact (record_of_reachable hr'.of_when hconn hon).2

/-- No thread waits for a mutex. -/
theorem not_stuck {s : ServerState} (hr : Reachable (server.when Legitimate) s) (fd : Nat) : s.conns fd ≠ .stuck := by
  induction hr with
  | init h =>
    obtain ⟨file, users, -, rfl⟩ := h
    exact fun h => by cases h
  | @step s t e hr hst ih =>
    have hturn := ServerState.turn hst.2
    by_cases hfd : e.socket = fd
    · rw [← hfd]
      exact (turn_handled (manageable_of_reachable hr) hst.1 hturn).1
    · rw [hturn.conns_ne hfd]
      exact ih

/-- The server is a session manager.  In every run of requests that come from connections that are logged in and that
the guards of the client let through, an event that asks for an action does to the accounts and the seats what the
manager does, and is answered with a refusal exactly when the manager does not allow the action; every other event
leaves the manager as it is. -/
theorem server_refines_manager {s t : ServerState} {e : Event} (hr : Reachable (server.when Legitimate) s)
    (hlegit : Legitimate s e) (hnext : s.next e = some t) :
    match askedAction s e with
    | none => managerOf t.world.mem.users = managerOf s.world.mem.users
    | some a => managerOf t.world.mem.users = (managerOf s.world.mem.users).perform a ∧
        (Refused t.world.mem ↔ ¬ (managerOf s.world.mem.users).Enabled a) := by
  have h := (turn_handled (manageable_of_reachable hr) hlegit (ServerState.turn hnext)).2.2
  cases hask : askedAction s e with
  | none =>
    rw [hask] at h
    exact congrArg managerOf h
  | some a =>
    rw [hask] at h
    exact ⟨h.table, h.refused⟩

/-- `bob`, who is registered, creates a session. -/
theorem server_refines_manager_created : ∃ s t, afterEventsWhen Legitimate
      [.accept 3 serverName, .recv 3 (ascii "13:1:bob:x")] = some s ∧ s.next (.recv 3 (ascii "8:1:bob:s")) = some t ∧
    managerOf t.world.mem.users =
      (managerOf s.world.mem.users).perform (.create (ascii "bob") (ascii "s")) ∧
    (Refused t.world.mem ↔ ¬ (managerOf s.world.mem.users).Enabled (.create (ascii "bob") (ascii "s"))) := by
  let events : List Event := [.accept 3 serverName, .recv 3 (ascii "13:1:bob:x")]
  let e : Event := .recv 3 (ascii "8:1:bob:s")
  obtain ⟨s, hs⟩ : ∃ s, afterEventsWhen Legitimate events = some s := Option.isSome_iff_exists.1 (by decide)
  have hstate : (afterEventsWhen Legitimate events).map (fun s => (decide (Legitimate s e), (s.next e).isSome,
      (s.conns 3).conn?.map fun conn => conn.source.bytes)) = some (true, true, some (ascii "bob")) := by decide
  rw [hs, Option.map_some, Option.some.injEq, Prod.mk.injEq, Prod.mk.injEq, decide_eq_true_eq] at hstate
  obtain ⟨hlegit, hnext, hname⟩ := hstate
  obtain ⟨t, ht⟩ := Option.isSome_iff_exists.1 hnext
  obtain ⟨conn, hconn, hsource⟩ := Option.map_eq_some_iff.1 hname
  have hasked : askedAction s e = some (.create (ascii "bob") (ascii "s")) := by
    simp only [askedAction, e, hconn, Option.bind_some, hsource]
    decide
  have h := server_refines_manager (reachable_afterEventsWhen hs) hlegit ht
  rw [hasked] at h
  exact ⟨s, t, hs, ht, h⟩

/-! ### Sessions without an administrator -/

/-- What a run of the server shows is a run of the manager. -/
theorem simulates_manager : Simulates (server.when Legitimate) (manager Bytes Bytes Bytes)
    fun s m => m = managerOf s.world.mem.users := by
  refine .of_view ?_ fun s e t hr hst => ?_
  · rintro s ⟨file, users, hload, rfl⟩
    have hloaded : ∀ u ∈ users, u.status = .offline ∧ u.inSession = .offline :=
      hload.forall_users fun _ _ => ⟨rfl, rfl⟩
    refine ⟨fun name => ?_, fun name => ?_⟩
    all_goals
      rcases record_or_none users name with h | ⟨i, u, hrec⟩
      · simp [started, Manager.Online, managerOf_account_none h, managerOf_seat_none h]
      · obtain ⟨hoff, hout⟩ := hloaded u hrec.mem
        simp [started, Manager.Online, managerOf_account hrec, managerOf_seat hrec, User.seat, hoff, hout]
  · have h := (turn_handled (manageable_of_reachable hr) hst.1 (ServerState.turn hst.2)).2.2
    cases hask : askedAction s e with
    | none =>
      rw [hask] at h
      exact Or.inl (congrArg managerOf h)
    | some a =>
      rw [hask] at h
      have htable : managerOf t.world.mem.users = (managerOf s.world.mem.users).perform a := h.table
      by_cases ha : (managerOf s.world.mem.users).Enabled a
      · rw [Manager.perform, if_pos ha] at htable
        exact Or.inr ⟨a, ha, htable⟩
      · rw [Manager.perform, if_neg ha] at htable
        exact Or.inl htable

/-- Somebody is in the session, and nobody is its administrator. -/
def Leaderless (users : List User) (sessionId : Bytes) : Prop :=
  countInSession users sessionId ≠ 0 ∧ adminsInSession users sessionId = 0

/-- The event takes the user out of the session at the user's own wish. -/
def GoesOut (s : ServerState) (e : Event) (sessionId : Bytes) (u : User) : Prop :=
  ∃ name, (askedAction s e = some (.leave name) ∨ askedAction s e = some (.exit name)) ∧
    ownRecord s.world.mem.users name = some u ∧ u.sessionId.bytes = sessionId

section Leaderless

variable {users : List User} {id : Bytes}

private theorem mem_admins (hsettled : ∀ u ∈ users, u.Settled) (hid : id ≠ notInSession.bytes) {name : Bytes} {i : Nat}
    {u : User} (hrec : Record users name i u) :
    name ∈ (managerOf users).seat.admins id ↔ u.sessionId.bytes = id ∧ u.role = .admin := by
  simp only [Seating.admins, Set.mem_ofPred_eq, managerOf_seat hrec, seat_eq_some]
  refine and_iff_right_of_imp fun h => (hsettled u hrec.mem).flag.2 fun hnone => hid ?_
  rw [← h.1, hnone]

private theorem leaderless_iff (hnames : (users.map User.name).Nodup) (hsettled : ∀ u ∈ users, u.Settled)
    (hid : id ≠ notInSession.bytes) : Leaderless users id ↔ (managerOf users).seat.Orphaned id := by
  have hmembers := members_eq_empty hnames hsettled hid
  have hadmins : (managerOf users).seat.admins id = ∅ ↔ adminsInSession users id = 0 := by
    rw [adminsInSession, List.countP_eq_zero, Set.eq_empty_iff_forall_notMem]
    constructor
    · intro h u hu
      obtain ⟨i, hrec⟩ := record_of_mem hnames hu
      simpa using mt (mem_admins hsettled hid hrec).2 (h u.name)
    · intro h name hname
      obtain ⟨i, u, hrec, -⟩ := record_of_member (Seating.admins_subset _ _ hname)
      exact h u hrec.mem (by simpa using (mem_admins hsettled hid hrec).1 hname)
  rw [Leaderless, Seating.Orphaned, Set.nonempty_iff_ne_empty, Ne, Ne, hmembers, hadmins]

private theorem member_iff (hsettled : ∀ u ∈ users, u.Settled) (hid : id ≠ notInSession.bytes) {name : Bytes} {i : Nat}
    {u : User} (hrec : Record users name i u) :
    name ∈ (managerOf users).seat.members id ↔ u.sessionId.bytes = id := by
  rw [mem_members hrec]
  refine and_iff_right_of_imp fun h => (hsettled u hrec.mem).flag.2 fun hnone => hid ?_
  rw [← h, hnone]

/-- Two users are in a session when one is left besides `n`. -/
private theorem pair_iff {M : Set Bytes} {n : Bytes} (hn : n ∈ M) : (∃ k, n ≠ k ∧ M = {n, k}) ↔ M.ncard = 2 := by
  constructor
  · rintro ⟨k, hne, hmem⟩
    rw [hmem, Set.ncard_pair hne]
  · intro htwo
    obtain ⟨k, hk⟩ := Set.ncard_eq_one.1 (show (M \ {n}).ncard = 1 by
      rw [Set.ncard_sdiff_singleton_of_mem hn, htwo])
    have hmem : k ∈ M \ {n} := by
      rw [hk]
      exact rfl
    refine ⟨k, fun h => hmem.2 h.symm, ?_⟩
    rw [← Set.insert_sdiff_self_of_mem hn, hk]

private theorem others_iff {M : Set Bytes} {n : Bytes} (hM : M.Finite) (hn : n ∈ M) :
    (M \ {n}).Nontrivial ↔ 3 ≤ M.ncard := by
  have : Finite ↑(M \ {n}) := (hM.subset Set.sdiff_subset).to_subtype
  rw [← Set.one_lt_ncard_iff_nontrivial, Set.ncard_sdiff_singleton_of_mem hn]
  omega

private theorem record_of_own {name : Bytes} {u : User} (h : ownRecord users name = some u) :
    ∃ i, Record users name i u := by
  rcases record_or_none users name with hnone | ⟨i, v, hrec⟩
  · cases h.symm.trans (ownRecord_none hnone)
  · cases h.symm.trans (ownRecord_eq hrec)
    exact ⟨i, hrec⟩

private theorem goesOut_iff {s : ServerState} {e : Event} {a : Action Bytes Bytes Bytes} {u : User}
    (hask : askedAction s e = some a) : GoesOut s e id u ↔ ∃ name i, a.leaver = some name ∧
      Record s.world.mem.users name i u ∧ u.sessionId.bytes = id := by
  constructor
  · rintro ⟨name, hname, hown, hu⟩
    obtain ⟨i, hrec⟩ := record_of_own hown
    refine ⟨name, i, ?_, hrec, hu⟩
    rcases hname with h | h
    · cases hask.symm.trans h
      rfl
    · cases hask.symm.trans h
      rfl
  · rintro ⟨name, i, hleaver, hrec, hu⟩
    refine ⟨name, ?_, ownRecord_eq hrec, hu⟩
    rw [hask]
    cases a <;> cases hleaver
    · exact Or.inl rfl
    · exact Or.inr rfl

end Leaderless

/-- How a session comes to be without an administrator, and how it gets one again.  It loses its administrator when
the administrator leaves it, or exits, and at least two others stay, and in no other way; and then it stays without
one until one of its last two users leaves it or exits. -/
theorem leaderless_next {s t : ServerState} {e : Event} (hr : Reachable (server.when Legitimate) s)
    (hlegit : Legitimate s e) (hnext : s.next e = some t) {sessionId : Bytes} (hid : sessionId ≠ notInSession.bytes) :
    Leaderless t.world.mem.users sessionId ↔
      (¬ Leaderless s.world.mem.users sessionId ∧ 3 ≤ countInSession s.world.mem.users sessionId ∧
          ∃ u, GoesOut s e sessionId u ∧ u.role = .admin) ∨
        (Leaderless s.world.mem.users sessionId ∧
          ¬ (countInSession s.world.mem.users sessionId = 2 ∧ ∃ u, GoesOut s e sessionId u)) := by
  have hm := manageable_of_reachable hr
  have hsettled := hm.administered.settled
  have hm' := manageable_of_reachable (hr.step ⟨hlegit, hnext⟩)
  obtain ⟨_, hmanager, rfl⟩ := simulates_manager.reachable hr
  have hruled := ruled_of_reachable hmanager sessionId
  rw [leaderless_iff hm.names hsettled hid, leaderless_iff hm'.names hm'.administered.settled hid]
  have h := server_refines_manager hr hlegit hnext
  cases hask : askedAction s e with
  | none =>
    rw [hask] at h
    have hstay : ∀ u, ¬ GoesOut s e sessionId u := by
      rintro u ⟨name, hname | hname, -⟩
      · cases hask.symm.trans hname
      · cases hask.symm.trans hname
    simp [h, hstay]
  | some a =>
    rw [hask] at h
    have hcard := ncard_members hm.names hsettled hid
    have hout : ∀ u, GoesOut s e sessionId u ↔ ∃ name i, a.leaver = some name ∧
      Record s.world.mem.users name i u ∧ u.sessionId.bytes = sessionId := fun u => goesOut_iff hask
    by_cases ha : (managerOf s.world.mem.users).Enabled a
    · rw [h.1, Manager.perform, if_pos ha]
      by_cases horphan : (managerOf s.world.mem.users).seat.Orphaned sessionId
      · have hiff := Manager.regains_iff ha hruled horphan
        simp only [horphan, not_true_eq_false, false_and, true_and, false_or]
        rw [← not_iff_not, hiff, not_not, ← hcard.2]
        constructor
        · rintro ⟨name, k, hleaver, hne, hmem⟩
          have hin : name ∈ (managerOf s.world.mem.users).seat.members sessionId := by
            rw [hmem]
            exact Or.inl rfl
          obtain ⟨i, u, hrec, -, hu⟩ := record_of_member hin
          exact ⟨(pair_iff hin).1 ⟨k, hne, hmem⟩, u, (hout u).2 ⟨name, i, hleaver, hrec, hu⟩⟩
        · rintro ⟨htwo, u, hu⟩
          obtain ⟨name, i, hleaver, hrec, hu⟩ := (hout u).1 hu
          obtain ⟨k, hne, hmem⟩ := (pair_iff ((member_iff hsettled hid hrec).2 hu)).2 htwo
          exact ⟨name, k, hleaver, hne, hmem⟩
      · have hiff := Manager.loses_iff ha hruled horphan
        simp only [horphan, not_false_eq_true, true_and, false_and, or_false]
        rw [hiff, ← hcard.2]
        constructor
        · rintro ⟨name, hleaver, hadm, hmany⟩
          have hin := Seating.admins_subset _ _ hadm
          obtain ⟨i, u, hrec, -, hu⟩ := record_of_member hin
          have hrole := ((mem_admins hsettled hid hrec).1 hadm).2
          exact ⟨(others_iff hcard.1 hin).1 hmany, u, (hout u).2 ⟨name, i, hleaver, hrec, hu⟩, hrole⟩
        · rintro ⟨hthree, u, hu, hrole⟩
          obtain ⟨name, i, hleaver, hrec, hu⟩ := (hout u).1 hu
          have hin := (member_iff hsettled hid hrec).2 hu
          exact ⟨name, hleaver, (mem_admins hsettled hid hrec).2 ⟨hu, hrole⟩, (others_iff hcard.1 hin).2 hthree⟩
    · -- somebody who is in the session may go
      have hnobody : ∀ u, ¬ GoesOut s e sessionId u := by
        intro u hu
        obtain ⟨name, i, hleaver, hrec, hu⟩ := (hout u).1 hu
        obtain ⟨hin, -⟩ := (mem_members hrec).1 ((member_iff hsettled hid hrec).2 hu)
        have hon : u.status = .online := by
          cases hst : u.status with
          | online => rfl
          | offline => cases hin.symm.trans (hm.absent u hrec.mem hst)
        refine ha ?_
        cases a <;> cases hleaver
        · simp [Manager.Enabled, managerOf_seat hrec, User.seat, hin]
        · exact ⟨_, hon ▸ managerOf_account hrec⟩
      rw [h.1, Manager.perform, if_neg ha]
      simp [hnobody]

/-- `bob`, `ann` and `cat` are in the session that `bob` created. -/
def threeInSession : List Event :=
  [.accept 3 serverName, .recv 3 (ascii "13:1:bob:x"), .recv 3 (ascii "8:1:bob:s"), .accept 4 serverName,
    .recv 4 (ascii "13:1:ann:x"), .recv 4 (ascii "4:1:ann:s"), .accept 5 serverName, .recv 5 (ascii "13:1:cat:x"),
    .recv 5 (ascii "4:1:cat:s")]

/-- `bob` leaves the session to the two others. -/
theorem leaderless_next_three : ∃ s t, afterEventsWhen Legitimate threeInSession = some s ∧
    s.next (.recv 3 (ascii "7:0:bob:")) = some t ∧
    (Leaderless t.world.mem.users (ascii "s") ↔
      (¬ Leaderless s.world.mem.users (ascii "s") ∧ 3 ≤ countInSession s.world.mem.users (ascii "s") ∧
          ∃ u, GoesOut s (.recv 3 (ascii "7:0:bob:")) (ascii "s") u ∧ u.role = .admin) ∨
        (Leaderless s.world.mem.users (ascii "s") ∧
          ¬ (countInSession s.world.mem.users (ascii "s") = 2 ∧
            ∃ u, GoesOut s (.recv 3 (ascii "7:0:bob:")) (ascii "s") u))) := by
  obtain ⟨s, hs⟩ : ∃ s, afterEventsWhen Legitimate threeInSession = some s := Option.isSome_iff_exists.1 (by decide)
  have hstate : (afterEventsWhen Legitimate threeInSession).map (fun s =>
      (decide (Legitimate s (.recv 3 (ascii "7:0:bob:"))), (s.next (.recv 3 (ascii "7:0:bob:"))).isSome)) =
      some (true, true) := by decide
  rw [hs, Option.map_some, Option.some.injEq, Prod.mk.injEq, decide_eq_true_eq] at hstate
  obtain ⟨t, ht⟩ := Option.isSome_iff_exists.1 hstate.2
  exact ⟨s, t, hs, ht, leaderless_next (reachable_afterEventsWhen hs) hstate.1 ht (by decide)⟩

end Conferencing
