import NetLabs.Conferencing.Joins
import NetLabs.Conferencing.Logout

/-!
# Several connections of one client

A client that logs in again has a second thread, and both threads write the same flags.  So a connection is cut off by the
end of an earlier one (`cut_off_iff`), and a login that is confirmed too late locks the client out (`locked_out_iff`).
Neither happens to a user who waits (`Patient`, `one_connection`).  When the program ends, each of its threads waits for
no more than the end of its connection or one message (`quit_ends`).
-/

namespace Conferencing

open CText Transition

/-- The server lets the client in. -/
def Grants (chunk : Bytes) : Prop := typeOf chunk = some MsgType.loAck ∨ typeOf chunk = some MsgType.rgAck

/-- The server turns the client away. -/
def Refuses (chunk : Bytes) : Prop := typeOf chunk = some MsgType.loNak ∨ typeOf chunk = some MsgType.rgNak

instance (chunk : Bytes) : Decidable (Grants chunk) := inferInstanceAs (Decidable (_ ∨ _))
instance (chunk : Bytes) : Decidable (Refuses chunk) := inferInstanceAs (Decidable (_ ∨ _))

private theorem not_refuses_of_grants {chunk : Bytes} (h : Grants chunk) : ¬ Refuses chunk := by
  rintro (hnak | hnak) <;> rcases h with h | h <;> cases h.symm.trans hnak

namespace Client

variable {c c' : Client} {r : Reaction} {locals : Locals} {line : Bytes} {chunk : Bytes} {goesOn : Bool}

/-- The client takes itself for logged in, and has no connection. -/
def LockedOut (c : Client) : Prop := c.verifiedAccess = .online ∧ c.serverConnectionStatus = .offline

/-- What a message does to the two flags of the connection, and whether its thread goes on. -/
inductive Takes (c : Client) (chunk : Bytes) (c' : Client) (goesOn : Bool) : Prop
  | granted (h : Grants chunk) (hverified : c'.verifiedAccess = .online)
      (hserver : c'.serverConnectionStatus = c.serverConnectionStatus) (hon : goesOn = true)
  | refused (h : Refuses chunk) (hout : c'.Out) (hend : goesOn = false)
  | other (hgrant : ¬ Grants chunk) (hrefuse : ¬ Refuses chunk) (hverified : c'.verifiedAccess = c.verifiedAccess)
      (hserver : c'.serverConnectionStatus = c.serverConnectionStatus) (hon : goesOn = true)

private theorem takes (h : c.receive chunk = some (c', goesOn)) : Takes c chunk c' goesOn := by
  obtain ⟨⟨message, source⟩, hdec, hhandle⟩ := Option.bind_eq_some_iff.1 h
  have htype : typeOf chunk = some message.type := by rw [typeOf, hdec]; rfl
  have hgrants : Grants chunk ↔ message.type = MsgType.loAck ∨ message.type = MsgType.rgAck := by
    simp only [Grants, htype, Option.some.injEq]
  have hrefuses : Refuses chunk ↔ message.type = MsgType.loNak ∨ message.type = MsgType.rgNak := by
    simp only [Refuses, htype, Option.some.injEq]
  dsimp only [handle] at hhandle
  split at hhandle
  · rename_i hmessage
    rw [hmessage] at hgrants hrefuses
    have hother : c' = c ∧ goesOn = true := by
      split at hhandle
      · cases hhandle
        exact ⟨rfl, rfl⟩
      · obtain ⟨_, -, hhandle⟩ := Option.map_eq_some_iff.1 hhandle
        cases hhandle
        exact ⟨rfl, rfl⟩
    obtain ⟨rfl, rfl⟩ := hother
    exact .other (fun hg => absurd (hgrants.1 hg) (by decide)) (fun hr => absurd (hrefuses.1 hr) (by decide)) rfl rfl rfl
  · split at hhandle
    · cases hhandle
    cases hhandle
    by_cases hg : message.type = MsgType.loAck ∨ message.type = MsgType.rgAck
    · have hr := not_refuses_of_grants (hgrants.2 hg)
      rw [hrefuses, not_or] at hr
      refine .granted (hgrants.2 hg) ?_ ?_ (by simp [hr.1, hr.2])
      · rw [afterMessage, if_pos hg]
      · rw [afterMessage, if_pos hg]
    by_cases hr : message.type = MsgType.loNak ∨ message.type = MsgType.rgNak
    · refine .refused (hrefuses.2 hr) ?_ (by rcases hr with hr | hr <;> simp [hr])
      rw [afterMessage, if_neg hg, if_pos hr]
      exact ⟨rfl, rfl⟩
    · rw [not_or] at hr
      refine .other (fun h => hg (hgrants.1 h)) (fun h => not_or.2 hr (hrefuses.1 h)) ?_ ?_ (by simp [hr.1, hr.2])
      · simp only [afterMessage, hg, hr.1, hr.2, or_self, if_false]
        split_ifs <;> rfl
      · simp only [afterMessage, hg, hr.1, hr.2, or_self, if_false]
        split_ifs <;> rfl

/-- The line is `/quit`. -/
def QuitLine (line : Bytes) : Prop :=
  ∃ t, splitLine line = some t ∧ checkCommands (t.input 0) = .quit ∧ t.index = 1

/-- Without a connection the client does what it is told only by `/quit`. -/
private theorem enter_lockedOut (hc : c.LockedOut) (h : c.enter locals line = some (c', r)) :
    c' = c ∧ (r = .send [] ∨ r = .quit [] ∧ QuitLine line) := by
  obtain ⟨hverified, hserver⟩ := hc
  have hnothing : c.nothing = some (c', r) → c' = c ∧ (r = .send [] ∨ r = .quit [] ∧ QuitLine line) := by
    intro h
    cases h
    exact ⟨rfl, Or.inl rfl⟩
  have haccess : ∀ {type : UInt32} {t : TypedLine}, c.askAccess type t = some (c', r) →
      c' = c ∧ (r = .send [] ∨ r = .quit [] ∧ QuitLine line) := by
    intro type t h
    simp only [askAccess, hverified, if_true, ite_self] at h
    exact hnothing h
  unfold enter at h
  split at h
  · exact hnothing h
  obtain ⟨t, hsplit, h⟩ := Option.bind_eq_some_iff.1 h
  cases hcode : checkCommands (t.input 0) with
  | invalid =>
    rw [hcode] at h
    exact hnothing h
  | quit =>
    simp only [hcode, hserver, reduceCtorEq, if_false] at h
    split at h
    · exact hnothing h
    · rename_i hindex
      cases h
      exact ⟨rfl, Or.inr ⟨rfl, t, hsplit, hcode, not_not.1 hindex⟩⟩
  | login =>
    rw [hcode] at h
    exact haccess h
  | create =>
    rw [hcode] at h
    exact haccess h
  | _ =>
    rw [hcode] at h
    exact hnothing h

/-- The two flags of the connection are as they were. -/
def SameLink (c c' : Client) : Prop :=
  c'.verifiedAccess = c.verifiedAccess ∧ c'.serverConnectionStatus = c.serverConnectionStatus

private theorem sameLink_of_asks (h : c.Asks c' r) : c.SameLink c' := by
  rw [h.1]
  exact ⟨rfl, rfl⟩

end Client

namespace Program

variable {p q : Program} {e : ProgramEvent}

/-- The end of a connection, seen by its thread or by `main`. -/
def Parts (c c' : Client) : Prop :=
  c.serverConnectionStatus = .online ∧ c'.Out ∨ c.serverConnectionStatus = .offline ∧ c' = c

private theorem parts_of_disconnect {c c' : Client} (h : disconnect c = some c') : Parts c c' := by
  unfold disconnect at h
  split at h
  · rename_i hserver
    obtain ⟨⟨c₁, messages⟩, hlogout, rfl⟩ := Option.map_eq_some_iff.1 h
    exact Or.inl ⟨hserver, Client.out_of_logout hlogout⟩
  · rename_i hserver
    cases h
    exact Or.inr ⟨Status.ne_online.1 hserver, rfl⟩

/-- What one step does to the flags of the connection, to the threads and to `termination_signal`. -/
inductive Turn (p : Program) : ProgramEvent → Program → Prop
  | typed {locals : Locals} {line : Bytes} {connected : Bool} {q : Program} (hflags : p.client.SameLink q.client)
      (hthreads : q.threads = p.threads)
      (hsignal : q.terminationSignal = true → p.client.serverConnectionStatus = .offline) :
      Turn p (.typed locals line connected) q
  | attempt {locals : Locals} {line : Bytes} {connected : Bool} {request : UInt32} {parameters : List Bytes} {q : Program}
      (hline : AccessLine line request parameters) (hverified : p.client.verifiedAccess = .offline)
      (hclient : q.client = p.client) (hthreads : q.threads = p.threads ++ [none]) (hsignal : q.terminationSignal = false) :
      Turn p (.typed locals line connected) q
  | connect {locals : Locals} {line : Bytes} {connected : Bool} {request : UInt32} {parameters : List Bytes} {q : Program}
      (hline : AccessLine line request parameters) (hverified : p.client.verifiedAccess = .offline)
      (hclient : q.client = { p.client with serverConnectionStatus := .online })
      (hthreads : q.threads = p.threads ++ [some .head]) (hsignal : q.terminationSignal = false) :
      Turn p (.typed locals line connected) q
  | logout {locals : Locals} {line : Bytes} {connected : Bool} {q : Program} (hline : Client.LogsOut line)
      (hserver : p.client.serverConnectionStatus = .online) (hout : q.client.Out) (hthreads : q.threads = p.threads) :
      Turn p (.typed locals line connected) q
  | ends {e : ProgramEvent} {q : Program} (he : e = .full ∨ e = .interrupt) (hclient : Parts p.client q.client)
      (hthreads : q.threads = p.threads) (hsignal : q.terminationSignal = true) : Turn p e q
  | head {k : Nat} (hk : p.threads[k]? = some (some .head)) : Turn p (.head k) { p with
      threads := p.threads.set k (some (if p.client.serverConnectionStatus = .online ∧ p.terminationSignal = false
        then .receiving else .ended)) }
  | message {k : Nat} {chunk : Bytes} {c : Client} {goesOn : Bool} (hk : p.threads[k]? = some (some .receiving))
      (htakes : p.client.Takes chunk c goesOn) : Turn p (.message k chunk) { p with
        client := c
        threads := p.threads.set k (some (if goesOn then .head else .ended)) }
  | closed {k : Nat} {c : Client} (hk : p.threads[k]? = some (some .receiving)) (hparts : Parts p.client c) :
      Turn p (.closed k) { p with client := c, threads := p.threads.set k (some .ended) }

theorem turn (h : p.next e = some q) : Turn p e q := by
  cases e with
  | typed locals line connected =>
    simp only [next, Option.ite_none_left_eq_some] at h
    obtain ⟨hopen, h⟩ := h
    rw [not_or] at hopen
    -- a line that opens no connection
    have hother : ∀ {c : Client} {r : Reaction}, p.client.enter locals line = some (c, r) →
        (∀ request parameters, r ≠ .connect request parameters) → q.client = c → q.threads = p.threads →
        (q.terminationSignal = true → ∃ messages, r = .quit messages) → Turn p (.typed locals line connected) q := by
      intro c r henter hr hclient hthreads hsignal
      have hsame : p.client.SameLink c → (∀ messages, r ≠ .quit messages) → Turn p (.typed locals line connected) q :=
        fun hflags hquit => .typed (hclient ▸ hflags) hthreads fun hq => (hsignal hq).elim fun m hm => absurd hm (hquit m)
      cases Client.enters henter with
      | asks h _ =>
        refine hsame (Client.sameLink_of_asks h) fun messages hquit => ?_
        rcases h.2 with hr | ⟨_, _, _, _, hr⟩ <;> cases hr.symm.trans hquit
      | connect => exact absurd rfl (hr _ _)
      | quit hserver => exact .typed (hclient ▸ ⟨rfl, rfl⟩) hthreads fun _ => hserver
      | logout hserver hline hlogout _ => exact .logout hline hserver (hclient ▸ Client.out_of_logout hlogout) hthreads
      | leave _ _ _ _ => exact hsame ⟨rfl, rfl⟩ fun _ => Reaction.noConfusion
    split at h
    · rename_i henter
      cases h
      exact hother henter (fun _ _ => Reaction.noConfusion) rfl rfl fun hq => absurd hq hopen.1
    · rename_i henter
      cases h
      exact hother henter (fun _ _ => Reaction.noConfusion) rfl rfl fun _ => ⟨_, rfl⟩
    · rename_i henter
      obtain ⟨rfl, hverified, hline⟩ := enter_connect_iff.1 henter
      unfold connect at h
      split at h
      · cases h
        exact .attempt hline hverified rfl rfl (Bool.eq_false_iff.2 hopen.1)
      · split at h
        · cases h
          exact .connect hline hverified rfl rfl (Bool.eq_false_iff.2 hopen.1)
        · cases h
          exact .attempt hline hverified rfl rfl (Bool.eq_false_iff.2 hopen.1)
      · cases h
    · cases h
  | full =>
    simp only [next, Option.ite_none_right_eq_some] at h
    obtain ⟨client, hclient, rfl⟩ := Option.map_eq_some_iff.1 h.2
    exact .ends (Or.inl rfl) (parts_of_disconnect hclient) rfl rfl
  | interrupt =>
    obtain ⟨client, hclient, rfl⟩ := Option.map_eq_some_iff.1 h
    exact .ends (Or.inr rfl) (parts_of_disconnect hclient) rfl rfl
  | head k =>
    simp only [next, Option.ite_none_right_eq_some] at h
    obtain ⟨hk, h⟩ := h
    cases h
    exact .head hk
  | message k chunk =>
    simp only [next, Option.ite_none_right_eq_some] at h
    obtain ⟨hk, h⟩ := h
    obtain ⟨⟨c, goesOn⟩, hreceive, rfl⟩ := Option.map_eq_some_iff.1 h
    exact .message hk (Client.takes hreceive)
  | closed k =>
    simp only [next, Option.ite_none_right_eq_some] at h
    obtain ⟨hk, h⟩ := h
    obtain ⟨c, hc, rfl⟩ := Option.map_eq_some_iff.1 h
    exact .closed hk (parts_of_disconnect hc)

/-! ### Locked out -/

/-- A login is confirmed to a client that has no connection. -/
def Late (p : Program) (e : ProgramEvent) : Prop :=
  ∃ k chunk, e = .message k chunk ∧ Grants chunk ∧ p.client.serverConnectionStatus = .offline

/-- A login is refused. -/
def TurnsAway (e : ProgramEvent) : Prop := ∃ k chunk, e = .message k chunk ∧ Refuses chunk

private theorem Parts.not_lockedOut_iff {c c' : Client} (h : Parts c c') : c'.LockedOut ↔ c.LockedOut := by
  rcases h with ⟨hserver, hout⟩ | ⟨-, rfl⟩
  · refine ⟨fun hlocked => ?_, fun hlocked => ?_⟩
    · cases hlocked.1.symm.trans hout.1
    · cases hserver.symm.trans hlocked.2
  · exact Iff.rfl

private theorem lockedOut_next (h : p.next e = some q) :
    q.client.LockedOut ↔ p.Late e ∨ p.client.LockedOut ∧ ¬ TurnsAway e := by
  have hsame : (∀ k chunk, e ≠ .message k chunk) → (q.client.LockedOut ↔ p.client.LockedOut) →
      (q.client.LockedOut ↔ p.Late e ∨ p.client.LockedOut ∧ ¬ TurnsAway e) := by
    intro hmessage hiff
    have hlate : ¬ p.Late e := fun ⟨k, chunk, he, _⟩ => hmessage k chunk he
    have haway : ¬ TurnsAway e := fun ⟨k, chunk, he, _⟩ => hmessage k chunk he
    simp only [hlate, haway, false_or, not_false_iff, and_true, hiff]
  cases turn h with
  | typed hflags hthreads hsignal =>
    refine hsame (by simp) ?_
    simp only [Client.LockedOut, hflags.1, hflags.2]
  | attempt hline hverified hclient hthreads hsignal => exact hsame (by simp) (by rw [hclient])
  | connect hline hverified hclient hthreads hsignal =>
    refine hsame (by simp) ?_
    simp [Client.LockedOut, hclient, hverified]
  | logout hline hserver hout hthreads =>
    refine hsame (by simp) ?_
    simp [Client.LockedOut, hout.1, hserver]
  | ends he hparts hthreads hsignal =>
    refine hsame ?_ hparts.not_lockedOut_iff
    rcases he with rfl | rfl <;> simp
  | head hk => exact hsame (by simp) Iff.rfl
  | @message k chunk c goesOn hk htakes =>
    have hlate : p.Late (.message k chunk) ↔ Grants chunk ∧ p.client.serverConnectionStatus = .offline := by
      simp [Late]
    have haway : TurnsAway (.message k chunk) ↔ Refuses chunk := by simp [TurnsAway]
    rw [hlate, haway]
    cases htakes with
    | granted hgrants hverified hserver _ =>
      have hrefuses := not_refuses_of_grants hgrants
      simp only [Client.LockedOut, hgrants, hverified, hserver, hrefuses, true_and, not_false_iff, and_true]
      tauto
    | refused hrefuses hout _ =>
      have hgrants : ¬ Grants chunk := fun hg => not_refuses_of_grants hg hrefuses
      simp [Client.LockedOut, hgrants, hrefuses, hout.1]
    | other hgrants hrefuses hverified hserver _ =>
      simp [Client.LockedOut, hgrants, hrefuses, hverified, hserver]
  | closed hk hparts => exact hsame (by simp) hparts.not_lockedOut_iff

/-- From any state on. -/
private theorem lockedOut_run {es : List ProgramEvent} (h : runFrom next p es = some q) :
    q.client.LockedOut ↔
      (∃ before e after mid, es = before ++ e :: after ∧ runFrom next p before = some mid ∧ mid.Late e ∧
        ∀ e' ∈ after, ¬ TurnsAway e') ∨
      p.client.LockedOut ∧ ∀ e ∈ es, ¬ TurnsAway e := by
  induction es generalizing p with
  | nil =>
    cases h
    refine ⟨fun hq => Or.inr ⟨hq, by simp⟩, ?_⟩
    rintro (⟨before, e, after, mid, heq, -⟩ | ⟨hq, -⟩)
    · cases before <;> cases heq
    · exact hq
  | cons e es ih =>
    obtain ⟨mid, hnext, hrun⟩ := Option.bind_eq_some_iff.1 h
    rw [ih hrun, lockedOut_next hnext]
    simp only [List.forall_mem_cons]
    constructor
    · rintro (⟨before, e', after, mid', rfl, hbefore, hlate, hafter⟩ | ⟨hlate | ⟨hp, haway⟩, hes⟩)
      · refine Or.inl ⟨e :: before, e', after, mid', rfl, ?_, hlate, hafter⟩
        rw [runFrom, hnext, Option.bind_some, hbefore]
      · exact Or.inl ⟨[], e, es, p, rfl, rfl, hlate, hes⟩
      · exact Or.inr ⟨hp, haway, hes⟩
    · rintro (⟨before, e', after, mid', heq, hbefore, hlate, hafter⟩ | ⟨hp, haway, hes⟩)
      · cases before with
        | nil =>
          cases heq
          cases hbefore
          exact Or.inr ⟨Or.inl hlate, hafter⟩
        | cons e₀ before =>
          cases heq
          rw [runFrom, hnext, Option.bind_some] at hbefore
          exact Or.inl ⟨before, e', after, mid', rfl, hbefore, hlate, hafter⟩
      · exact Or.inr ⟨Or.inr ⟨hp, haway⟩, hes⟩

/-- `/quit` is all that is left. -/
private theorem typed_lockedOut {locals : Locals} {line : Bytes} {connected : Bool} (hp : p.client.LockedOut)
    (h : p.next (.typed locals line connected) = some q) :
    q = p ∨ Client.QuitLine line ∧ q = { p with terminationSignal := true } := by
  simp only [next, Option.ite_none_left_eq_some] at h
  obtain ⟨hopen, h⟩ := h
  split at h
  · rename_i henter
    obtain ⟨rfl, -⟩ := Client.enter_lockedOut hp henter
    cases h
    exact Or.inl rfl
  · rename_i henter
    obtain ⟨rfl, hr | ⟨-, hquit⟩⟩ := Client.enter_lockedOut hp henter
    · cases hr
    · cases h
      exact Or.inr ⟨hquit, rfl⟩
  · rename_i henter
    obtain ⟨-, hr | ⟨hr, -⟩⟩ := Client.enter_lockedOut hp henter <;> cases hr
  · cases h

end Program

/-- The client is locked out exactly when a login was confirmed while it had no connection and none has been refused since;
then no line that is typed does anything, but for `/quit`. -/
theorem locked_out_iff {p q : Program} {es : List ProgramEvent} (hp : program.init p)
    (h : runFrom Program.next p es = some q) :
    (q.client.LockedOut ↔ ∃ before e after mid, es = before ++ e :: after ∧ runFrom Program.next p before = some mid ∧
      mid.Late e ∧ ∀ e' ∈ after, ¬ Program.TurnsAway e') ∧
    (q.client.LockedOut → ∀ locals line connected q', q.next (.typed locals line connected) = some q' →
      q' = q ∨ Client.QuitLine line ∧ q' = { q with terminationSignal := true }) := by
  have hstart : ¬ p.client.LockedOut := by
    obtain ⟨name, -, rfl⟩ := hp
    exact fun hlocked => by cases hlocked.1
  refine ⟨?_, fun hq _ _ _ _ hnext => Program.typed_lockedOut hq hnext⟩
  rw [Program.lockedOut_run h]
  simp only [hstart, false_and, or_false]

/-- `ann` logs out before she is told that she is registered. -/
theorem locked_out_iff_ann : ∃ q, runFrom Program.next (.start ⟨[], by decide, by decide⟩) [
      .typed ⟨.zero, CArray.zero _⟩ (ascii "/create ann x 127.0.0.1 5000" ++ [10]) true, .head 0,
      .typed ⟨.zero, CArray.zero _⟩ (ascii "/logout" ++ [10]) true, .message 0 (ascii "14:0:ann:")] = some q ∧
    q.client.LockedOut := by
  let typed (line : Bytes) : ProgramEvent := .typed ⟨.zero, CArray.zero _⟩ (line ++ [10]) true
  let before := [typed (ascii "/create ann x 127.0.0.1 5000"), .head 0, typed (ascii "/logout")]
  have hmid : (runFrom Program.next (.start ⟨[], by decide, by decide⟩) before).map (fun p =>
      p.client.serverConnectionStatus) = some .offline := by decide
  obtain ⟨mid, hbefore, hoff⟩ := Option.map_eq_some_iff.1 hmid
  obtain ⟨q, hq⟩ := Option.isSome_iff_exists.1 (show (runFrom Program.next (.start ⟨[], by decide, by decide⟩)
    (before ++ [.message 0 (ascii "14:0:ann:")])).isSome = true by decide)
  refine ⟨q, hq, (locked_out_iff ⟨_, rfl, rfl⟩ hq).1.2 ⟨before, _, [], mid, rfl, hbefore, ⟨0, _, rfl, ?_, hoff⟩, by simp⟩⟩
  decide

namespace Program

/-! ### Cut off -/

section CutOff

variable {p q : Program} {e : ProgramEvent} {k : Nat}

/-- The thread of a connection has not ended. -/
def Stands (p : Program) (k : Nat) : Prop := ∃ t, p.threads[k]? = some (some t) ∧ t ≠ .ended

/-- The user types no `/login`, `/create`, `/logout` or `/quit`, and the program does not end. -/
def Keeps : ProgramEvent → Prop
  | .typed _ line _ => ¬ Client.LogsOut line ∧ ∀ request parameters, ¬ AccessLine line request parameters
  | .full => False
  | .interrupt => False
  | _ => True

/-- Another connection of the client comes to its end, or its login is refused. -/
def EndsAnother (k : Nat) (e : ProgramEvent) : Prop :=
  ∃ j ≠ k, e = .closed j ∨ ∃ chunk, e = .message j chunk ∧ Refuses chunk

/-- A thread that has ended stays so. -/
private theorem Stands.of_next (hq : q.Stands k) (hkeeps : Keeps e) (h : p.next e = some q) : p.Stands k := by
  have hsame : q.threads = p.threads → p.Stands k := fun hthreads => by rwa [Stands, ← hthreads]
  have hset : ∀ {j : Nat} {t t' : HandlerThread}, p.threads[j]? = some (some t) → t ≠ .ended →
      q.threads = p.threads.set j (some t') → p.Stands k := by
    intro j t t' hj ht hthreads
    by_cases hjk : j = k
    · exact ⟨t, hjk ▸ hj, ht⟩
    · rwa [Stands, hthreads, List.getElem?_set_ne hjk] at hq
  cases turn h with
  | typed _ hthreads _ => exact hsame hthreads
  | attempt hline => exact absurd hline (hkeeps.2 _ _)
  | connect hline => exact absurd hline (hkeeps.2 _ _)
  | logout _ _ _ hthreads => exact hsame hthreads
  | ends _ _ hthreads _ => exact hsame hthreads
  | head hk => exact hset hk (by decide) rfl
  | message hk _ => exact hset hk (by decide) rfl
  | closed hk _ => exact hset hk (by decide) rfl

/-- What ends a thread is not about a connection that stands. -/
private theorem Stands.ne_of_set {j : Nat} {client : Client} (hj : j < p.threads.length)
    (hq : Stands { p with client := client, threads := p.threads.set j (some .ended) } k) : j ≠ k := by
  rintro rfl
  obtain ⟨t, ht, hne⟩ := hq
  rw [List.getElem?_set_self hj] at ht
  exact hne (Option.some.inj (Option.some.inj ht)).symm

private theorem cutOff_next (hq : q.Stands k) (hkeeps : Keeps e) (h : p.next e = some q) :
    q.client.serverConnectionStatus = .offline ↔
      p.client.serverConnectionStatus = .offline ∨ EndsAnother k e := by
  have hsame : q.client.serverConnectionStatus = p.client.serverConnectionStatus → (∀ j, e ≠ .closed j) →
      (∀ j chunk, e = .message j chunk → ¬ Refuses chunk) →
      (q.client.serverConnectionStatus = .offline ↔ p.client.serverConnectionStatus = .offline ∨ EndsAnother k e) := by
    intro hserver hclosed hmessage
    have hother : ¬ EndsAnother k e := by
      rintro ⟨j, -, he | ⟨chunk, he, hrefuses⟩⟩
      · exact hclosed j he
      · exact hmessage j chunk he hrefuses
    rw [hserver]
    simp only [hother, or_false]
  cases turn h with
  | typed hflags _ _ => exact hsame hflags.2 (by simp) (by simp)
  | attempt hline => exact absurd hline (hkeeps.2 _ _)
  | connect hline => exact absurd hline (hkeeps.2 _ _)
  | logout hline => exact absurd hline hkeeps.1
  | ends he => rcases he with rfl | rfl <;> exact hkeeps.elim
  | head hk => exact hsame rfl (by simp) (by simp)
  | @message j chunk c goesOn hj htakes =>
    cases htakes with
    | granted hgrants _ hserver _ =>
      refine hsame hserver (by simp) ?_
      rintro _ _ ⟨⟩
      exact not_refuses_of_grants hgrants
    | refused hrefuses hout hend =>
      subst hend
      have hjk := hq.ne_of_set (List.getElem?_eq_some_iff.1 hj).1
      exact ⟨fun _ => Or.inr ⟨j, hjk, Or.inr ⟨chunk, rfl, hrefuses⟩⟩, fun _ => hout.2⟩
    | other _ hrefuses _ hserver _ =>
      refine hsame hserver (by simp) ?_
      rintro _ _ ⟨⟩
      exact hrefuses
  | @closed j c hj hparts =>
    have hjk := hq.ne_of_set (List.getElem?_eq_some_iff.1 hj).1
    refine ⟨fun _ => Or.inr ⟨j, hjk, Or.inl rfl⟩, fun _ => ?_⟩
    rcases hparts with ⟨-, hout⟩ | ⟨hoff, rfl⟩
    · exact hout.2
    · exact hoff

private theorem cutOff_run {es : List ProgramEvent} (hq : q.Stands k) (hkeeps : ∀ e ∈ es, Keeps e)
    (hrun : runFrom next p es = some q) : p.Stands k ∧
      (q.client.serverConnectionStatus = .offline ↔
        p.client.serverConnectionStatus = .offline ∨ ∃ e ∈ es, EndsAnother k e) := by
  induction es generalizing p with
  | nil =>
    cases hrun
    exact ⟨hq, by simp⟩
  | cons e es ih =>
    obtain ⟨mid, hnext, hrun⟩ := Option.bind_eq_some_iff.1 hrun
    obtain ⟨hkeep, hkeeps⟩ := List.forall_mem_cons.1 hkeeps
    obtain ⟨hmid, hiff⟩ := ih hkeeps hrun
    refine ⟨hmid.of_next hkeep hnext, ?_⟩
    rw [hiff, cutOff_next hmid hkeep hnext]
    simp only [List.mem_cons, exists_eq_or_imp, or_assoc]

end CutOff

end Program

/-- As long as its thread goes on, a connection is taken for closed exactly when another one has ended in the meantime. -/
theorem cut_off_iff {p q : Program} {es : List ProgramEvent} {k : Nat}
    (hserver : p.client.serverConnectionStatus = .online) (hkeeps : ∀ e ∈ es, Program.Keeps e)
    (hrun : runFrom Program.next p es = some q) (hstands : q.Stands k) :
    q.client.serverConnectionStatus = .offline ↔ ∃ e ∈ es, Program.EndsAnother k e := by
  rw [(Program.cutOff_run hstands hkeeps hrun).2, hserver]
  simp only [reduceCtorEq, false_or]

/-- `ann` logs in again before her first connection is closed. -/
theorem cut_off_iff_ann : ∃ p q, runFrom Program.next (.start ⟨[], by decide, by decide⟩) [
      .typed ⟨.zero, CArray.zero _⟩ (ascii "/create ann x 127.0.0.1 5000" ++ [10]) true, .head 0,
      .message 0 (ascii "14:0:ann:"), .head 0, .typed ⟨.zero, CArray.zero _⟩ (ascii "/logout" ++ [10]) true,
      .typed ⟨.zero, CArray.zero _⟩ (ascii "/login ann x 127.0.0.1 5000" ++ [10]) true, .head 1] = some p ∧
    runFrom Program.next p [.closed 0] = some q ∧ q.Stands 1 ∧ q.client.serverConnectionStatus = .offline := by
  let typed (line : Bytes) : ProgramEvent := .typed ⟨.zero, CArray.zero _⟩ (line ++ [10]) true
  have hp : (runFrom Program.next (.start ⟨[], by decide, by decide⟩) [typed (ascii "/create ann x 127.0.0.1 5000"),
      .head 0, .message 0 (ascii "14:0:ann:"), .head 0, typed (ascii "/logout"),
      typed (ascii "/login ann x 127.0.0.1 5000"), .head 1]).bind (fun p => (runFrom Program.next p [.closed 0]).map
        fun q => (p.client.serverConnectionStatus, q.threads[1]?)) = some (.online, some (some .receiving)) := by decide
  obtain ⟨p, hp, hq⟩ := Option.bind_eq_some_iff.1 hp
  obtain ⟨q, hq, hfields⟩ := Option.map_eq_some_iff.1 hq
  obtain ⟨hserver, hthread⟩ := Prod.mk.inj hfields
  have hstands : q.Stands 1 := ⟨_, hthread, by decide⟩
  have hkeeps : ∀ e ∈ [ProgramEvent.closed 0], Program.Keeps e := by
    intro e he
    rw [List.mem_singleton.1 he]
    trivial
  exact ⟨p, q, hp, hq, hstands, (cut_off_iff hserver hkeeps hq hstands).2
    ⟨_, List.mem_singleton_self _, 0, by decide, Or.inl rfl⟩⟩

namespace Program

/-! ### One connection -/

/-- The connections that have been answered. -/
def logAnswers (_ : Program) (e : ProgramEvent) (_ : Program) (answered : List Nat) : List Nat :=
  match e with
  | .message k chunk => if Grants chunk ∨ Refuses chunk then k :: answered else answered
  | _ => answered

/-- The user waits: for the threads before the next `/login` or `/create`, and for the answer to it before `/logout` or
`/quit`.  A connection is answered once. -/
def Patient (s : Program × List Nat) : ProgramEvent → Prop
  | .typed _ line _ =>
    (∀ request parameters, AccessLine line request parameters → ∀ slot ∈ s.1.threads, slot = none ∨ slot = some .ended) ∧
    (Client.LogsOut line → s.1.client.serverConnectionStatus = .online → s.1.client.verifiedAccess = .online)
  | .message k chunk => Grants chunk ∨ Refuses chunk → k ∉ s.2
  | _ => True

/-- The threads but for the newest have ended; it goes on as long as the client is connected, and the client is verified
when it has been answered. -/
structure OneLink (s : Program × List Nat) : Prop where
  busy : ∀ k, s.1.Stands k → k + 1 = s.1.threads.length ∧
    (s.1.client.serverConnectionStatus = .offline → s.1.terminationSignal = false → k ∈ s.2)
  online : s.1.client.serverConnectionStatus = .online → ∃ k, s.1.Stands k ∧
    (s.1.client.verifiedAccess = .online ↔ k ∈ s.2)
  verified : s.1.terminationSignal = false → s.1.client.verifiedAccess = .online →
    s.1.client.serverConnectionStatus = .online
  ended : s.1.terminationSignal = true → s.1.client.serverConnectionStatus = .offline
  answered : ∀ k ∈ s.2, k < s.1.threads.length

section OneLink

variable {p q : Program} {e : ProgramEvent} {answered : List Nat}

private theorem stands_congr (hthreads : q.threads = p.threads) {k : Nat} : q.Stands k ↔ p.Stands k := by
  rw [Stands, Stands, hthreads]

private theorem stands_set {client : Client} {k : Nat} {t : HandlerThread} (hk : k < p.threads.length) {j : Nat} :
    Stands { p with client := client, threads := p.threads.set k (some t) } j ↔
      j = k ∧ t ≠ .ended ∨ j ≠ k ∧ p.Stands j := by
  by_cases hjk : j = k
  · subst hjk
    simp only [Stands, List.getElem?_set_self hk, Option.some.injEq, exists_eq_left', true_and, ne_eq, not_true_eq_false,
      false_and, or_false]
  · simp only [Stands, List.getElem?_set_ne (Ne.symm hjk), hjk, false_and, false_or, ne_eq, not_false_iff, true_and]

/-- A thread that goes on. -/
private theorem stands_set_running {client : Client} {k : Nat} {t t' : HandlerThread}
    (hk : p.threads[k]? = some (some t))
    (ht : t ≠ .ended) (ht' : t' ≠ .ended) {j : Nat} :
    Stands { p with client := client, threads := p.threads.set k (some t') } j ↔ p.Stands j := by
  rw [stands_set (List.getElem?_eq_some_iff.1 hk).1]
  by_cases hjk : j = k
  · subst hjk
    simp only [true_and, ne_eq, ht', not_false_iff, not_true_eq_false, false_and, or_false, true_iff]
    exact ⟨t, hk, ht⟩
  · simp only [hjk, false_and, false_or, ne_eq, not_false_iff, true_and]

/-- A slot at the end. -/
private theorem stands_append {slot : Option HandlerThread} (hthreads : q.threads = p.threads ++ [slot])
    (hall : ∀ slot ∈ p.threads, slot = none ∨ slot = some .ended) {k : Nat} :
    q.Stands k ↔ k = p.threads.length ∧ ∃ t, slot = some t ∧ t ≠ .ended := by
  rw [Stands, hthreads]
  rcases Nat.lt_trichotomy k p.threads.length with hlt | rfl | hgt
  · rw [List.getElem?_append_left hlt]
    refine ⟨fun ⟨t, ht, hne⟩ => ?_, fun h => absurd h.1 hlt.ne⟩
    rcases hall _ (List.mem_of_getElem? ht) with hnone | hended
    · cases hnone
    · exact absurd (Option.some.inj hended) hne
  · simp only [List.getElem?_concat_length, Option.some.injEq, true_and]
  · rw [List.getElem?_eq_none (by rw [List.length_append, List.length_singleton]; omega)]
    exact ⟨fun ⟨t, ht, _⟩ => (by cases ht), fun h => absurd h.1 hgt.ne'⟩

private theorem not_stands_of_all (hall : ∀ slot ∈ p.threads, slot = none ∨ slot = some .ended) {k : Nat} :
    ¬ p.Stands k := by
  rintro ⟨t, ht, hne⟩
  rcases hall _ (List.mem_of_getElem? ht) with hnone | hended
  · cases hnone
  · exact hne (Option.some.inj hended)

/-- The flags of the connection and the threads are as they were. -/
theorem OneLink.same (hs : OneLink (p, answered)) (hflags : p.client.SameLink q.client) (hthreads : q.threads = p.threads)
    (hmono : p.terminationSignal = true → q.terminationSignal = true)
    (hsignal : q.terminationSignal = true → q.client.serverConnectionStatus = .offline) : OneLink (q, answered) := by
  obtain ⟨hbusy, honline, hverified, hended, hanswered⟩ := hs
  have hopen : q.terminationSignal = false → p.terminationSignal = false := by
    intro hq
    by_contra hp
    rw [hmono (Bool.not_eq_false _ ▸ hp)] at hq
    cases hq
  refine ⟨fun k hk => ?_, fun hserver => ?_, fun hq hon => ?_, hsignal, ?_⟩
  · obtain ⟨hlast, hanswer⟩ := hbusy k ((stands_congr hthreads).1 hk)
    refine ⟨by rw [hthreads]; exact hlast, fun hoff hq => hanswer (hflags.2 ▸ hoff) (hopen hq)⟩
  · obtain ⟨k, hk, hiff⟩ := honline (hflags.2 ▸ hserver)
    exact ⟨k, (stands_congr hthreads).2 hk, by rw [hflags.1]; exact hiff⟩
  · rw [hflags.2]
    exact hverified (hopen hq) (hflags.1 ▸ hon)
  · rw [hthreads]
    exact hanswered

/-- `logout`, by the user or at the end of the program. -/
theorem OneLink.logout (hs : OneLink (p, answered)) (hserver : p.client.serverConnectionStatus = .online)
    (hout : q.client.Out) (hthreads : q.threads = p.threads)
    (hanswer : q.terminationSignal = false → p.client.verifiedAccess = .online) : OneLink (q, answered) := by
  obtain ⟨k, hk, hiff⟩ := hs.online hserver
  refine ⟨fun j hj => ?_, fun hon => ?_, fun _ hon => ?_, fun _ => hout.2, ?_⟩
  · have hjlast := (hs.busy j ((stands_congr hthreads).1 hj)).1
    obtain rfl : j = k := by
      have := (hs.busy k hk).1
      omega
    exact ⟨by rw [hthreads]; exact hjlast, fun _ hq => hiff.1 (hanswer hq)⟩
  · cases hout.2.symm.trans hon
  · cases hout.1.symm.trans hon
  · rw [hthreads]
    exact hs.answered

/-- The thread of a connection ends. -/
private theorem OneLink.ended_thread (hs : OneLink (p, answered)) {k : Nat} {t : HandlerThread} {c : Client}
    {answered' : List Nat} (hk : p.threads[k]? = some (some t)) (ht : t ≠ .ended)
    (hserver : c.serverConnectionStatus = .offline)
    (hverified : p.terminationSignal = false → c.verifiedAccess = .offline) (hanswered : ∀ j ∈ answered', j = k ∨ j ∈ answered) :
    OneLink ({ p with client := c, threads := p.threads.set k (some .ended) }, answered') := by
  have hlt := (List.getElem?_eq_some_iff.1 hk).1
  have hlast := (hs.busy k ⟨t, hk, ht⟩).1
  refine ⟨fun j hj => ?_, fun hon => ?_, fun hq hon => ?_, fun _ => hserver, fun j hj => ?_⟩
  · rcases (stands_set hlt).1 hj with ⟨-, hne⟩ | ⟨hjk, hj⟩
    · exact absurd rfl hne
    · have hjlast := (hs.busy j hj).1
      dsimp only at hjlast hlast
      omega
  · cases hserver.symm.trans hon
  · cases (hverified hq).symm.trans hon
  · rw [List.length_set]
    rcases hanswered j hj with rfl | hj
    · exact hlt
    · exact hs.answered j hj

/-- The thread of a connection goes on. -/
private theorem OneLink.goes_on (hs : OneLink (p, answered)) {k : Nat} {t t' : HandlerThread} {c : Client}
    (hk : p.threads[k]? = some (some t)) (ht : t ≠ .ended) (ht' : t' ≠ .ended) (hflags : p.client.SameLink c) :
    OneLink ({ p with client := c, threads := p.threads.set k (some t') }, answered) := by
  refine ⟨fun j hj => ?_, fun hon => ?_, fun hq hon => ?_, fun hq => ?_, fun j hj => ?_⟩
  · obtain ⟨hlast, hanswer⟩ := hs.busy j ((stands_set_running hk ht ht').1 hj)
    exact ⟨by rw [List.length_set]; exact hlast, fun hoff => hanswer (hflags.2 ▸ hoff)⟩
  · obtain ⟨j, hj, hiff⟩ := hs.online (hflags.2 ▸ hon)
    exact ⟨j, (stands_set_running hk ht ht').2 hj, by show c.verifiedAccess = .online ↔ _; rw [hflags.1]; exact hiff⟩
  · exact hflags.2.trans (hs.verified hq (hflags.1 ▸ hon))
  · exact hflags.2.trans (hs.ended hq)
  · rw [List.length_set]
    exact hs.answered j hj

theorem OneLink.next (hs : OneLink (p, answered)) (hpatient : Patient (p, answered) e) (h : p.next e = some q) :
    OneLink (q, logAnswers p e q answered) := by
  cases turn h with
  | typed hflags hthreads hsignal =>
    have hopen : p.terminationSignal = false := by
      simp only [Program.next, Option.ite_none_left_eq_some, not_or] at h
      exact Bool.eq_false_iff.2 h.1.1
    refine hs.same hflags hthreads (fun hp => ?_) fun hq => hflags.2.trans (hsignal hq)
    cases hopen.symm.trans hp
  | attempt hline hoff hclient hthreads hsignal =>
    have hall := hpatient.1 _ _ hline
    have hserver : p.client.serverConnectionStatus = .offline := by
      refine Status.ne_online.1 fun hon => ?_
      obtain ⟨k, hk, -⟩ := hs.online hon
      exact not_stands_of_all hall hk
    refine ⟨fun k hk => ?_, fun hon => ?_, fun _ hon => ?_, fun hq => ?_, fun k hk => ?_⟩
    · obtain ⟨-, t, ht, -⟩ := (stands_append hthreads hall).1 hk
      cases ht
    · rw [hclient] at hon
      cases hserver.symm.trans hon
    · rw [hclient] at hon
      cases hoff.symm.trans hon
    · cases hsignal.symm.trans hq
    · have := hs.answered k hk
      rw [hthreads, List.length_append]
      exact Nat.lt_add_right _ this
  | connect hline hoff hclient hthreads hsignal =>
    have hall := hpatient.1 _ _ hline
    have hlength : q.threads.length = p.threads.length + 1 := by rw [hthreads, List.length_append, List.length_singleton]
    refine ⟨fun k hk => ?_, fun _ => ?_, fun _ _ => by rw [hclient], fun hq => ?_, fun k hk => ?_⟩
    · obtain ⟨rfl, -⟩ := (stands_append hthreads hall).1 hk
      refine ⟨hlength.symm, fun hserver => ?_⟩
      rw [hclient] at hserver
      cases hserver
    · refine ⟨p.threads.length, (stands_append hthreads hall).2 ⟨rfl, _, rfl, by decide⟩, ?_⟩
      have hnew : p.threads.length ∉ answered := fun hmem => lt_irrefl _ (hs.answered _ hmem)
      rw [hclient, hoff]
      exact ⟨fun hon => (by cases hon), fun hmem => absurd hmem hnew⟩
    · cases hsignal.symm.trans hq
    · have := hs.answered k hk
      rw [hlength]
      exact Nat.lt_succ_of_lt this
  | logout hline hserver hout hthreads => exact hs.logout hserver hout hthreads fun _ => hpatient.2 hline hserver
  | ends he hparts hthreads hsignal =>
    have hlog : logAnswers p e q answered = answered := by rcases he with rfl | rfl <;> rfl
    rw [hlog]
    rcases hparts with ⟨hserver, hout⟩ | ⟨hserver, hclient⟩
    · refine hs.logout hserver hout hthreads fun hq => ?_
      cases hsignal.symm.trans hq
    · refine hs.same ⟨by rw [hclient], by rw [hclient]⟩ hthreads (fun _ => hsignal) fun _ => ?_
      rw [hclient]
      exact hserver
  | @head k hk =>
    split
    · exact hs.goes_on hk (by decide) (by decide) ⟨rfl, rfl⟩
    · rename_i hstop
      have hserver : p.client.serverConnectionStatus = .offline := by
        refine Status.ne_online.1 fun hon => hstop ⟨hon, ?_⟩
        refine Bool.eq_false_iff.2 fun hq => ?_
        cases (hs.ended hq).symm.trans hon
      refine hs.ended_thread hk (by decide) hserver (fun hopen => ?_) fun j hj => Or.inr hj
      refine Status.ne_online.1 fun hon => ?_
      cases (hs.verified hopen hon).symm.trans hserver
  | @message k chunk c goesOn hk htakes =>
    have hstands : p.Stands k := ⟨_, hk, by decide⟩
    have hlt := (List.getElem?_eq_some_iff.1 hk).1
    cases htakes with
    | granted hgrants hverified hserver hon =>
      subst hon
      have hlog : ∀ r, logAnswers p (.message k chunk) r answered = k :: answered := fun _ => if_pos (Or.inl hgrants)
      have hnew : k ∉ answered := hpatient (Or.inl hgrants)
      refine ⟨fun j hj => ?_, fun _ => ?_, fun hopen _ => ?_, fun hq => hserver.trans (hs.ended hq), fun j hj => ?_⟩
      · have hlast := hs.busy j ((stands_set_running hk (by decide) (by decide)).1 hj)
        obtain rfl : j = k := by
          have := (hs.busy k hstands).1
          omega
        exact ⟨by rw [List.length_set]; exact hlast.1, fun _ _ => by rw [hlog]; exact List.mem_cons_self⟩
      · refine ⟨k, (stands_set_running hk (by decide) (by decide)).2 hstands, ?_⟩
        exact ⟨fun _ => (by rw [hlog]; exact List.mem_cons_self), fun _ => hverified⟩
      · -- an answer that is awaited comes to a client that is connected
        refine hserver.trans (Status.ne_offline.1 fun hoff => ?_)
        exact hnew ((hs.busy k hstands).2 hoff hopen)
      · rw [hlog] at hj
        rw [List.length_set]
        rcases List.mem_cons.1 hj with rfl | hj
        · exact hlt
        · exact hs.answered j hj
    | refused hrefuses hout hend =>
      subst hend
      have hlog : ∀ r, logAnswers p (.message k chunk) r answered = k :: answered := fun _ => if_pos (Or.inr hrefuses)
      refine hs.ended_thread hk (by decide) hout.2 (fun _ => hout.1) fun j hj => ?_
      rw [hlog] at hj
      exact List.mem_cons.1 hj
    | other hgrants hrefuses hverified hserver hon =>
      subst hon
      have hlog : ∀ r, logAnswers p (.message k chunk) r answered = answered := fun _ => if_neg (not_or.2 ⟨hgrants, hrefuses⟩)
      rw [hlog]
      exact hs.goes_on hk (by decide) (by decide) ⟨hverified, hserver⟩
  | @closed k c hk hparts =>
    rcases hparts with ⟨-, hout⟩ | ⟨hserver, rfl⟩
    · exact hs.ended_thread hk (by decide) hout.2 (fun _ => hout.1) fun j hj => Or.inr hj
    · refine hs.ended_thread hk (by decide) hserver (fun hopen => ?_) fun j hj => Or.inr hj
      refine Status.ne_online.1 fun hon => ?_
      cases (hs.verified hopen hon).symm.trans hserver

private theorem oneLink {s : Program × List Nat} (hr : Reachable ((program.recording [] logAnswers).when Patient) s) :
    OneLink s := by
  refine hr.invariant ?_ fun s e t _ hs h => ?_
  · rintro ⟨p, answered⟩ ⟨⟨name, -, rfl⟩, rfl⟩
    refine ⟨fun k ⟨t, ht, _⟩ => ?_, fun hon => ?_, fun _ hon => ?_, fun hq => ?_, fun k hk => ?_⟩
    · cases ht
    · cases hon
    · cases hon
    · cases hq
    · cases hk
  · obtain ⟨hpatient, hnext, hlog⟩ := h
    obtain ⟨q, answered⟩ := t
    obtain rfl : answered = logAnswers s.1 e q s.2 := hlog
    exact hs.next hpatient hnext

end OneLink

end Program

/-- A user who waits has one connection at a time, is not locked out, and is taken for logged in exactly when the newest
connection has let the client in. -/
theorem one_connection {s : Program × List Nat}
    (hr : Reachable ((program.recording [] Program.logAnswers).when Program.Patient) s) :
    (∀ k, s.1.Stands k → k + 1 = s.1.threads.length) ∧
    (s.1.terminationSignal = false → ¬ s.1.client.LockedOut) ∧
    (s.1.client.serverConnectionStatus = .online →
      ∃ k, s.1.Stands k ∧ (s.1.client.verifiedAccess = .online ↔ k ∈ s.2)) := by
  obtain ⟨hbusy, honline, hverified, -, -⟩ := Program.oneLink hr
  refine ⟨fun k hk => (hbusy k hk).1, fun hopen hlocked => ?_, honline⟩
  cases (hverified hopen hlocked.1).symm.trans hlocked.2

/-- `ann` registers, and is told so. -/
theorem one_connection_ann : ∃ s, Reachable ((program.recording [] Program.logAnswers).when Program.Patient) s ∧
    s.1.client.name.bytes = ascii "ann" ∧ s.2 = [0] ∧ ∃ k, s.1.Stands k ∧ s.1.client.verifiedAccess = .online := by
  let create : ProgramEvent := .typed ⟨.zero, CArray.zero _⟩ (ascii "/create ann x 127.0.0.1 5000" ++ [10]) true
  let start : Program := .start ⟨[], by decide, by decide⟩
  have hrun : (start.next create).bind (fun p => (p.next (.head 0)).bind fun q =>
      (q.next (.message 0 (ascii "14:0:ann:"))).map fun r =>
        (r.client.name.bytes, r.client.serverConnectionStatus, r.threads)) =
      some (ascii "ann", .online, [some .head]) := by decide
  obtain ⟨p, hp, hrun⟩ := Option.bind_eq_some_iff.1 hrun
  obtain ⟨q, hq, hrun⟩ := Option.bind_eq_some_iff.1 hrun
  obtain ⟨r, hr, hfields⟩ := Option.map_eq_some_iff.1 hrun
  simp only [Prod.mk.injEq] at hfields
  obtain ⟨hname, hserver, hthreads⟩ := hfields
  have h₀ : Reachable ((program.recording [] Program.logAnswers).when Program.Patient) (start, []) :=
    .init ⟨⟨_, rfl, rfl⟩, rfl⟩
  have h₁ : Reachable ((program.recording [] Program.logAnswers).when Program.Patient) (p, []) := by
    refine .step h₀ (e := create) ⟨⟨fun _ _ _ slot hslot => ?_, fun _ hon => ?_⟩, hp, rfl⟩
    · cases hslot
    · cases hon
  have h₂ : Reachable ((program.recording [] Program.logAnswers).when Program.Patient) (q, []) :=
    .step h₁ (e := .head 0) ⟨trivial, hq, rfl⟩
  have h₃ : Reachable ((program.recording [] Program.logAnswers).when Program.Patient) (r, [0]) := by
    refine .step h₂ (e := .message 0 (ascii "14:0:ann:")) ⟨fun _ => by simp, hr, ?_⟩
    have hanswer : Grants (ascii "14:0:ann:") ∨ Refuses (ascii "14:0:ann:") := by decide
    show [0] = if Grants (ascii "14:0:ann:") ∨ Refuses (ascii "14:0:ann:") then [0] else []
    rw [if_pos hanswer]
  obtain ⟨hlast, -, honline⟩ := one_connection h₃
  obtain ⟨k, hk, hiff⟩ := honline hserver
  have hzero : k = 0 := by
    have := hlast k hk
    simp only [hthreads, List.length_singleton] at this
    omega
  exact ⟨(r, [0]), h₃, hname, rfl, k, hk, hiff.2 (List.mem_singleton.2 hzero)⟩

namespace Program

/-! ### The end of the program -/

/-- The steps that a thread takes after the signal. -/
def steps : Option HandlerThread → Nat
  | some .receiving => 2
  | some .head => 1
  | _ => 0

/-- The steps that all threads take after the signal. -/
def left (p : Program) : Nat := (p.threads.map steps).sum

section Ending

variable {p q : Program} {e : ProgramEvent}

private theorem sum_map_set {l : List (Option HandlerThread)} {k : Nat} {slot : Option HandlerThread}
    (hk : l[k]? = some slot)
    (slot' : Option HandlerThread) : ((l.set k slot').map steps).sum + steps slot = (l.map steps).sum + steps slot' := by
  induction l generalizing k with
  | nil => cases hk
  | cons a l ih =>
    cases k with
    | zero =>
      cases hk
      simp only [List.set_cons_zero, List.map_cons, List.sum_cons]
      omega
    | succ k =>
      have := ih hk
      simp only [List.set_cons_succ, List.map_cons, List.sum_cons]
      omega

/-- The client is logged out when its program ends. -/
private theorem offline_of_signal (hr : Reachable program p) :
    p.terminationSignal = true → p.client.serverConnectionStatus = .offline := by
  refine hr.invariant (P := fun p => p.terminationSignal = true → p.client.serverConnectionStatus = .offline) ?_ ?_
  · rintro p ⟨name, -, rfl⟩ hq
    cases hq
  · intro p e q _ hp h
    cases turn h with
    | typed hflags _ hsignal => exact fun hq => hflags.2.trans (hsignal hq)
    | attempt _ _ _ _ hsignal => exact fun hq => by cases hsignal.symm.trans hq
    | connect _ _ _ _ hsignal => exact fun hq => by cases hsignal.symm.trans hq
    | logout _ _ hout _ => exact fun _ => hout.2
    | ends _ hparts _ _ =>
      intro _
      rcases hparts with ⟨-, hout⟩ | ⟨hoff, hclient⟩
      · exact hout.2
      · rw [hclient, hoff]
    | head _ => exact hp
    | message _ htakes =>
      intro hq
      cases htakes with
      | granted _ _ hserver _ => exact hserver.trans (hp hq)
      | refused _ hout _ => exact hout.2
      | other _ _ _ hserver _ => exact hserver.trans (hp hq)
    | closed _ hparts =>
      intro hq
      rcases hparts with ⟨-, hout⟩ | ⟨hoff, rfl⟩
      · exact hout.2
      · exact hoff

/-- A step of a thread after the signal. -/
private theorem left_next (hp : p.terminationSignal = true) (hinterrupt : e ≠ .interrupt) (h : p.next e = some q) :
    q.terminationSignal = true ∧ q.threads.length = p.threads.length ∧ q.left < p.left := by
  have hset : ∀ {k : Nat} {t t' : HandlerThread}, p.threads[k]? = some (some t) → q.threads = p.threads.set k (some t') →
      steps (some t') < steps (some t) → q.left < p.left := by
    intro k t t' hk hthreads hlt
    have hsum := sum_map_set hk (some t')
    rw [left, left, hthreads]
    omega
  cases e with
  | typed locals line connected => simp [next, hp] at h
  | full => simp [next, hp] at h
  | interrupt => exact absurd rfl hinterrupt
  | head k =>
    simp only [next, hp, Option.ite_none_right_eq_some, Bool.true_eq_false, and_false, if_false, Option.some.injEq] at h
    obtain ⟨hk, rfl⟩ := h
    exact ⟨rfl, List.length_set, hset hk rfl (by decide)⟩
  | message k chunk =>
    simp only [next, Option.ite_none_right_eq_some] at h
    obtain ⟨hk, h⟩ := h
    obtain ⟨⟨c, goesOn⟩, -, rfl⟩ := Option.map_eq_some_iff.1 h
    refine ⟨hp, List.length_set, hset hk rfl ?_⟩
    cases goesOn
    · exact Nat.zero_lt_two
    · exact Nat.one_lt_two
  | closed k =>
    simp only [next, Option.ite_none_right_eq_some] at h
    obtain ⟨hk, h⟩ := h
    obtain ⟨c, -, rfl⟩ := Option.map_eq_some_iff.1 h
    exact ⟨hp, List.length_set, hset hk rfl (by decide)⟩

private theorem left_run {es : List ProgramEvent} (hp : p.terminationSignal = true) (hes : ∀ e ∈ es, e ≠ .interrupt)
    (h : runFrom next p es = some q) :
    q.terminationSignal = true ∧ q.threads.length = p.threads.length ∧ es.length + q.left ≤ p.left := by
  induction es generalizing p with
  | nil =>
    cases h
    exact ⟨hp, rfl, by simp⟩
  | cons e es ih =>
    obtain ⟨mid, hnext, hrun⟩ := Option.bind_eq_some_iff.1 h
    obtain ⟨he, hes⟩ := List.forall_mem_cons.1 hes
    obtain ⟨hmid, hlength, hleft⟩ := left_next hp he hnext
    obtain ⟨hq, hlength', hle⟩ := ih hmid hes hrun
    exact ⟨hq, hlength'.trans hlength, by rw [List.length_cons]; omega⟩

private theorem left_le (p : Program) : p.left ≤ 2 * p.threads.length := by
  rw [left, Nat.mul_comm, ← smul_eq_mul, ← List.length_map (f := steps)]
  refine List.sum_le_card_nsmul _ 2 fun n hn => ?_
  obtain ⟨slot, -, rfl⟩ := List.mem_map.1 hn
  rcases slot with _ | t
  · exact Nat.zero_le 2
  · cases t <;> decide

/-- The threads have nothing left to do by themselves when each of them has ended or waits for its connection. -/
private theorem no_head_iff :
    (∀ k, p.next (.head k) = none) ↔ ∀ k, p.Stands k → p.threads[k]? = some (some .receiving) := by
  constructor
  · rintro hnone k ⟨t, hk, ht⟩
    cases t with
    | head =>
      have hhead := hnone k
      simp only [next, hk, if_true, reduceCtorEq] at hhead
    | receiving => exact hk
    | ended => exact absurd rfl ht
  · intro hall k
    refine if_neg fun hk => ?_
    cases hk.symm.trans (hall k ⟨_, hk, by decide⟩)

private theorem not_stands_set {client : Client} {k : Nat} {slot : Option HandlerThread}
    (hk : p.threads[k]? = some slot) :
    ¬ Stands { p with client := client, threads := p.threads.set k (some .ended) } k := by
  rintro ⟨t, ht, hne⟩
  rw [List.getElem?_set_self (List.getElem?_eq_some_iff.1 hk).1] at ht
  exact hne (Option.some.inj (Option.some.inj ht)).symm

/-- After the signal the thread of a connection that ends, ends. -/
private theorem ends_of_closed (hoff : p.client.serverConnectionStatus = .offline) {k : Nat}
    (hk : p.threads[k]? = some (some .receiving)) : ∃ q, p.next (.closed k) = some q ∧ ¬ q.Stands k := by
  refine ⟨{ p with threads := p.threads.set k (some .ended) }, ?_, not_stands_set hk⟩
  simp only [next, hk, if_true, disconnect, hoff, reduceCtorEq, if_false, Option.map_some]

/-- After the signal one more message is the last for its thread. -/
private theorem ends_of_message (hp : p.terminationSignal = true) {k : Nat} {chunk : Bytes}
    (h : p.next (.message k chunk) = some q) :
    ¬ q.Stands k ∨ ∃ r, q.next (.head k) = some r ∧ ¬ r.Stands k := by
  simp only [next, Option.ite_none_right_eq_some] at h
  obtain ⟨hk, h⟩ := h
  obtain ⟨⟨c, goesOn⟩, -, rfl⟩ := Option.map_eq_some_iff.1 h
  cases goesOn with
  | false => exact Or.inl (not_stands_set hk)
  | true =>
    right
    have hhead : (p.threads.set k (some .head))[k]? = some (some .head) :=
      List.getElem?_set_self (List.getElem?_eq_some_iff.1 hk).1
    have hnext : next { p with client := c, threads := p.threads.set k (some .head) } (.head k) =
        some { p with client := c, threads := (p.threads.set k (some .head)).set k (some .ended) } := by
      simp only [next, hhead, if_true, hp, Bool.true_eq_false, and_false, if_false]
    exact ⟨_, hnext, not_stands_set (p := { p with client := c, threads := p.threads.set k (some .head) }) hhead⟩

end Ending

end Program

/-- After `/quit` or `SIGINT` each thread takes at most two more steps.  The threads that have nothing left to do by
themselves and have not ended wait for their connection, and its end or one more message is the end of such a thread. -/
theorem quit_ends {p q : Program} {es : List ProgramEvent} (hr : Reachable program p)
    (hp : p.terminationSignal = true) (hes : ∀ e ∈ es, e ≠ .interrupt) (h : runFrom Program.next p es = some q) :
    es.length ≤ 2 * p.threads.length ∧
    ((∀ k, q.next (.head k) = none) ↔ ∀ k, q.Stands k → q.threads[k]? = some (some .receiving)) ∧
    ∀ k, q.threads[k]? = some (some .receiving) →
      (∃ r, q.next (.closed k) = some r ∧ ¬ r.Stands k) ∧
      ∀ chunk r, q.next (.message k chunk) = some r → ¬ r.Stands k ∨ ∃ r', r.next (.head k) = some r' ∧ ¬ r'.Stands k := by
  obtain ⟨hq, -, hle⟩ := Program.left_run hp hes h
  have hoff := Program.offline_of_signal (hr.runFrom (fun _ _ _ h => h) h) hq
  refine ⟨?_, Program.no_head_iff, fun k hk => ⟨Program.ends_of_closed hoff hk, fun _ _ => Program.ends_of_message hq⟩⟩
  have hbound := p.left_le
  omega

/-- `ann` registers, and the program is interrupted while it waits for the answer, which ends its thread. -/
theorem quit_ends_ann : ∃ p q r, Reachable program p ∧ p.terminationSignal = true ∧ p.Stands 0 ∧
    p.next (.message 0 (ascii "14:0:ann:")) = some q ∧ q.next (.head 0) = some r ∧ ¬ r.Stands 0 := by
  let start : Program := .start ⟨[], by decide, by decide⟩
  have hp : (runFrom Program.next start [.typed ⟨.zero, CArray.zero _⟩ (ascii "/create ann x 127.0.0.1 5000" ++ [10]) true,
      .head 0, .interrupt]).bind (fun p => (p.next (.message 0 (ascii "14:0:ann:"))).map
        fun q => (p.terminationSignal, p.threads, q.threads)) =
      some (true, [some .receiving], [some .head]) := by decide
  obtain ⟨p, hp, hq⟩ := Option.bind_eq_some_iff.1 hp
  obtain ⟨q, hq, hfields⟩ := Option.map_eq_some_iff.1 hq
  simp only [Prod.mk.injEq] at hfields
  obtain ⟨hsignal, hthreads, hhead⟩ := hfields
  have hr : Reachable program p := .runFrom (fun _ _ _ h => h) (.init ⟨_, rfl, rfl⟩) hp
  have hreceiving : p.threads[0]? = some (some .receiving) := by rw [hthreads]; rfl
  obtain ⟨-, -, hends⟩ := quit_ends hr hsignal (List.forall_mem_nil _) rfl
  have hstands : q.Stands 0 := ⟨.head, by rw [hhead]; rfl, by decide⟩
  obtain ⟨r, hr', hended⟩ := ((hends 0 hreceiving).2 _ q hq).resolve_left fun hn => hn hstands
  exact ⟨p, q, r, hr, hsignal, ⟨_, hreceiving, by decide⟩, hq, hr', hended⟩

end Conferencing
