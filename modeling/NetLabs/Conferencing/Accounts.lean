import NetLabs.Conferencing.Logins
import NetLabs.Conferencing.Restart

/-!
# The account table

The table and the file grow only by the registrations that are answered with `RG_ACK`, in their order, and a connection
that is logged in finds the record of its login under its name, at the place where it was then (`account_table`).
-/

namespace Conferencing

open CText LockProg Transition

/-- The history of a run: the accounts registered, and the place of the record that each socket has logged in to. -/
structure AccountLog where
  registered : List Account
  places : Nat → Option Nat

def AccountLog.empty : AccountLog := ⟨[], fun _ => none⟩

/-- The history after an event. -/
def logAccounts (_ : ServerState) (e : Event) (t : ServerState) (log : AccountLog) : AccountLog where
  registered := log.registered ++ (registeredBy e t).toList
  places := match loggedInBy e t with
    | some claimed => Function.update log.places e.socket (databaseSearchUser t.world.mem.users claimed.bytes)
    | none => log.places

/-- The event answers a `CREATE` with `RG_NAK`. -/
def RefusesRegistration (e : Event) (t : ServerState) : Prop :=
  ∃ socketFd chunk p data, e = .recv socketFd chunk ∧ decode (recvBuffer chunk) = some p ∧ p.1.type = MsgType.create ∧
    (socketFd, wireOf MsgType.rgNak p.2 data) ∈ t.world.mem.outbox

/-- Every connection that is logged in finds the record of its login. -/
def FindsPlace (s : ServerState) (log : AccountLog) : Prop :=
  ∀ fd conn, s.conns fd = .running conn → conn.serverConnectionStatus = .online →
    ∃ i, log.places fd = some i ∧ databaseSearchUser s.world.mem.users conn.source.bytes = some i

section Step

variable {file : Bytes} {loaded : List User} {log : AccountLog} {s t : ServerState} {e : Event}

private theorem stored_logAccounts (h : Stored file loaded log.registered s) (hturn : Turn s e t) :
    Stored file loaded (logAccounts s e t log).registered t := by
  rcases hturn.login_cases with ⟨claimed, hlogin⟩ | ⟨claimed, password, hreg⟩ | hneither
  · obtain ⟨i, u, hrec, -, husers⟩ := hlogin.users
    simp only [logAccounts, hlogin.registered, Option.toList_none, List.append_nil]
    exact h.changed (husers ▸ .modify hrec.get (.login _ _)) hlogin.file
  · simp only [logAccounts, hreg.registered, Option.toList_some]
    exact h.registers hreg.room hreg.new hreg.users hreg.file
  · simp only [logAccounts, hneither.registered, Option.toList_none, List.append_nil]
    exact h.changed hneither.users hneither.file

/-- The table only grows. -/
theorem accounts_of_turn (hturn : Turn s e t) : accounts s.world.mem.users <+: accounts t.world.mem.users := by
  rcases hturn.changed with h | ⟨_, _, _, h⟩
  · rw [h.accounts]
  · rw [h, accounts, accounts, List.map_append]
    exact List.prefix_append _ _

theorem search_of_turn (hturn : Turn s e t) {name : Bytes} {i : Nat}
    (h : databaseSearchUser s.world.mem.users name = some i) : databaseSearchUser t.world.mem.users name = some i := by
  obtain ⟨u, hrec⟩ := Table.exists_at h
  obtain ⟨u', hrec', -⟩ := hturn.record hrec
  exact hrec'.found

private theorem findsPlace_logAccounts (h : FindsPlace s log) (hturn : Turn s e t) :
    FindsPlace t (logAccounts s e t log) := by
  -- a socket that has just been logged in to an account
  have hnew : ∀ claimed, loggedInBy e t = some claimed → t.conns e.socket = .running ⟨claimed, .online⟩ →
      databaseSearchUser t.world.mem.users claimed.bytes ≠ none → FindsPlace t (logAccounts s e t log) := by
    intro claimed hby hslot hfound fd conn hconn hon
    simp only [logAccounts, hby]
    by_cases hfd : fd = e.socket
    · subst hfd
      rw [hslot] at hconn
      cases hconn
      rw [Function.update_self]
      obtain ⟨i, hi⟩ := Option.ne_none_iff_exists'.1 hfound
      exact ⟨i, hi, hi⟩
    · rw [hturn.conns_ne (Ne.symm hfd)] at hconn
      obtain ⟨i, hplace, hi⟩ := h fd conn hconn hon
      exact ⟨i, by rw [Function.update_of_ne hfd, hplace], search_of_turn hturn hi⟩
  rcases hturn.login_cases with ⟨claimed, hlogin⟩ | ⟨claimed, password, hreg⟩ | hneither
  · obtain ⟨i, u, hrec, -⟩ := hlogin.users
    apply hnew claimed hlogin.loggedIn hlogin.conn
    rw [search_of_turn hturn hrec.found]
    simp
  · apply hnew claimed hreg.loggedIn hreg.conn
    rw [hreg.users]
    exact Table.search_ne_none (a := registeredUser claimed password e.socket) (by simp)
  · intro fd conn hconn hon
    have hold : s.conns fd = .running conn := by
      by_cases hfd : fd = e.socket
      · subst hfd
        rcases hneither.conn conn hconn with hold | ⟨hoff, -⟩
        · exact hold
        · cases hon.symm.trans hoff
      · rwa [hturn.conns_ne (Ne.symm hfd)] at hconn
    obtain ⟨i, hplace, hi⟩ := h fd conn hold hon
    refine ⟨i, ?_, search_of_turn hturn hi⟩
    simp only [logAccounts, hneither.loggedIn, hplace]

/-- A refused registration appends nothing. -/
private theorem refused_of_turn (hturn : Turn s e t) (hrefused : RefusesRegistration e t) :
    accounts t.world.mem.users = accounts s.world.mem.users ∧ t.world.mem.file = s.world.mem.file := by
  obtain ⟨socketFd, chunk, p, data, rfl, hdec, htype, hsent⟩ := hrefused
  rcases hturn.login_cases with ⟨claimed, hlogin⟩ | ⟨claimed, password, hreg⟩ | hneither
  · obtain ⟨i, u, hrec, -, husers⟩ := hlogin.users
    have hchanged : Changed s.world.mem.users t.world.mem.users := husers ▸ .modify hrec.get (.login _ _)
    exact ⟨hchanged.accounts, hlogin.file⟩
  · rw [hreg.outbox, List.mem_singleton] at hsent
    exact absurd (wire_type (Prod.mk.inj hsent).2) (by decide)
  · exact ⟨hneither.users.accounts, hneither.file⟩

end Step

/-- One state follows another in a run. -/
abbrev Later : ServerState → ServerState → Prop := Relation.ReflTransGen fun s t => ∃ e, s.next e = some t

theorem Later.accounts {s t : ServerState} (h : Later s t) :
    accounts s.world.mem.users <+: accounts t.world.mem.users := by
  induction h with
  | refl => exact List.prefix_refl _
  | tail _ hst ih =>
    obtain ⟨e, hnext⟩ := hst
    exact ih.trans (accounts_of_turn (ServerState.turn hnext))

/-- The account table.  In every state of every run on a file, the usernames are distinct, and the table and the file
hold what they held at the start and then the registrations answered with `RG_ACK`, in their order; no account that is
in the table changes or moves later, and `RG_NAK` stands for no change; and a connection that is logged in finds the
record of its login under its name. -/
theorem account_table {file : Bytes} {loaded : List User} (hload : SetUpDatabase file loaded) {s : ServerState}
    {log : AccountLog} (hr : Reachable ((serverOn file).recording .empty logAccounts) (s, log)) :
    (s.world.mem.users.map User.name).Nodup ∧
    accounts s.world.mem.users = accounts loaded ++ log.registered ∧
    s.world.mem.file = file ++ recordLines log.registered ∧
    (∀ t, Later s t → accounts s.world.mem.users <+: accounts t.world.mem.users) ∧
    (∀ e t, s.next e = some t → RefusesRegistration e t →
      accounts t.world.mem.users = accounts s.world.mem.users ∧ t.world.mem.file = s.world.mem.file) ∧
    FindsPlace s log := by
  have hkept : ∀ p : ServerState × AccountLog, Reachable ((serverOn file).recording .empty logAccounts) p →
      Stored file loaded p.2.registered p.1 ∧ FindsPlace p.1 p.2 := by
    intro p hr
    induction hr with
    | @init p h =>
      obtain ⟨⟨users, hload', hstart⟩, hempty⟩ := h
      rw [hstart, hempty]
      exact ⟨stored_started hload hload', fun fd conn hconn => by cases hconn⟩
    | @step p q e _ hst ih =>
      have hturn := ServerState.turn hst.1
      rw [hst.2]
      exact ⟨stored_logAccounts ih.1 hturn, findsPlace_logAccounts ih.2 hturn⟩
  obtain ⟨hstored, hplaces⟩ := hkept (s, log) hr
  exact ⟨hstored.names, hstored.accounts_eq, hstored.file_eq, fun t h => h.accounts,
    fun e t hnext h => refused_of_turn (ServerState.turn hnext) h, hplaces⟩

/-- `bob` registers on the empty file. -/
theorem account_table_bob : ∃ s log, afterEvents [.accept 3 ⟨[], by decide, by decide⟩,
      .recv 3 (ascii "13:1:bob:x")] = some s ∧
    log.registered = [(⟨ascii "bob", by decide, by decide⟩, ⟨ascii "x", by decide, by decide⟩)] ∧
    s.world.mem.file = recordLines log.registered ∧ FindsPlace s log := by
  let events : List Event := [.accept 3 ⟨[], by decide, by decide⟩, .recv 3 (ascii "13:1:bob:x")]
  have hload : SetUpDatabase [] [] := ⟨1, by decide⟩
  obtain ⟨s, hs⟩ : ∃ s, afterEvents events = some s := Option.isSome_iff_exists.1 (by decide)
  have hr : Reachable (serverOn []) s := Reachable.runFrom (fun _ _ _ h => h) (.init ⟨[], hload, rfl⟩) hs
  obtain ⟨log, hlog⟩ := hr.recorded .empty logAccounts
  obtain ⟨-, haccounts, hfile, -, -, hplaces⟩ := account_table hload hlog
  have hbob : accounts s.world.mem.users = [(⟨ascii "bob", by decide, by decide⟩, ⟨ascii "x", by decide, by decide⟩)] :=
    of_afterEvents (f := fun s => accounts s.world.mem.users) hs (by decide)
  exact ⟨s, log, hs, haccounts.symm.trans hbob, hfile, hplaces⟩

end Conferencing
