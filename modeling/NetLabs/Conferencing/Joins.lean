import NetLabs.Conferencing.Threads
import NetLabs.Conferencing.TypedLines

/-!
# Joining the threads

`login` and `user_registration` create a thread in `thread[thread_count]`, if they get that far; their caller then
increments `thread_count` in any case.  `terminate_program` and the signal handler join the slots below the count.  They
join exactly the threads that were created as long as every attempt gets to `pthread_create`, and no signal comes between
that and the increment (`joins_created_threads`).
-/

namespace Conferencing

open CText Transition

/-- The program with `thread_count`, which is incremented behind the call that fills the slot. -/
structure Counter where
  program : Program
  threadCount : Nat

/-- A step of the program, or `thread_count++`. -/
inductive CounterEvent
  | run (e : ProgramEvent)
  | count

namespace Counter

/-- The loop of `main` is not inside `login` or `user_registration`. -/
def Idle (s : Counter) : Prop := s.program.threads.length = s.threadCount

instance (s : Counter) : Decidable s.Idle := inferInstanceAs (Decidable (_ = _))

/-- `main` goes on with the next line when it has counted the attempt; a signal, which `main` handles, and the threads come
at any time.  `main` counts nothing once it is in the signal handler. -/
def next (s : Counter) : CounterEvent → Option Counter
  | .run (.typed locals line connected) =>
    if s.Idle then (s.program.next (.typed locals line connected)).map fun p => { s with program := p } else none
  | .run .full => if s.Idle then (s.program.next .full).map fun p => { s with program := p } else none
  | .run e => (s.program.next e).map fun p => { s with program := p }
  | .count =>
    if s.Idle ∨ s.program.terminationSignal then none else some { s with threadCount := s.threadCount + 1 }

/-- Every slot below the count holds a thread that was created; and when they are joined, no created thread is left out. -/
structure Sound (s : Counter) : Prop where
  created : ∀ i < s.threadCount, ∃ t, s.program.threads[i]? = some (some t)
  joined : s.program.terminationSignal = true → ∀ i t, s.program.threads[i]? = some (some t) → i < s.threadCount

/-- The attempt gets as far as `pthread_create`. -/
def Succeeds (parameters : List Bytes) (connected : Bool) : Prop :=
  ((parameters.getD 0 []).length < maxName ∧ (parameters.getD 1 []).length < maxPasswordLength) ∧ connected = true

instance (parameters : List Bytes) (connected : Bool) : Decidable (Succeeds parameters connected) :=
  inferInstanceAs (Decidable (_ ∧ _))

/-- A `/login` or `/create` that is tried succeeds, and no signal comes while one is being tried. -/
def Pairs (s : Counter) : CounterEvent → Prop
  | .run (.typed _ line connected) => ∀ request parameters, AccessLine line request parameters →
      s.program.client.verifiedAccess = .offline → Succeeds parameters connected
  | .run .interrupt => s.Idle
  | _ => True

end Counter

/-- The runs of the program with its count. -/
def counter : System Counter CounterEvent where
  init s := program.init s.program ∧ s.threadCount = 0
  step s e t := s.next e = some t

/-! ### What a step does to the threads -/

namespace Program

variable {p q : Program} {e : ProgramEvent}

/-- What one step does to the slots of `thread` and to `termination_signal`. -/
inductive Moves (p : Program) : ProgramEvent → Program → Prop
  | same {locals : Locals} {line : Bytes} {connected : Bool} {q : Program} (hthreads : q.threads = p.threads)
      (hline : ∀ request parameters, AccessLine line request parameters → p.client.verifiedAccess = .online) :
      Moves p (.typed locals line connected) q
  | attempt {locals : Locals} {line : Bytes} {connected : Bool} {request : UInt32} {parameters : List Bytes} {q : Program}
      (hverified : p.client.verifiedAccess = .offline) (hline : AccessLine line request parameters)
      (hthreads : q.threads = p.threads ++ [if Counter.Succeeds parameters connected then some .head else none])
      (hsignal : q.terminationSignal = false) : Moves p (.typed locals line connected) q
  | ends {e : ProgramEvent} {q : Program} (he : e = .full ∨ e = .interrupt) (hthreads : q.threads = p.threads)
      (hsignal : q.terminationSignal = true) : Moves p e q
  | thread {e : ProgramEvent} {k : Nat} {t t' : HandlerThread} {q : Program}
      (he : e = .head k ∨ (∃ chunk, e = .message k chunk) ∨ e = .closed k) (hk : p.threads[k]? = some (some t))
      (hthreads : q.threads = p.threads.set k (some t')) (hsignal : q.terminationSignal = p.terminationSignal) :
      Moves p e q

private theorem connect_eq {request : UInt32} {parameters : List Bytes} {connected : Bool} {line : Bytes}
    (hline : AccessLine line request parameters) (h : p.connect request parameters connected = some q) :
    q.threads = p.threads ++ [if Counter.Succeeds parameters connected then some .head else none] ∧
      q.terminationSignal = p.terminationSignal := by
  obtain ⟨command, hcommand, -⟩ := hline.words_eq
  unfold connect at h
  by_cases hshort : (parameters.getD 0 []).length < maxName ∧ (parameters.getD 1 []).length < maxPasswordLength
  · obtain ⟨bytes, hsent⟩ := accessRequest_sent hcommand.request_ne (hline.nulFree 0) (hline.nulFree 1) hshort
    rw [hsent] at h
    cases connected with
    | true =>
      cases h
      exact ⟨by rw [if_pos ⟨hshort, rfl⟩], rfl⟩
    | false =>
      cases h
      exact ⟨by rw [if_neg fun hs => Bool.noConfusion hs.2], rfl⟩
  · rw [accessRequest_refused hshort] at h
    cases h
    exact ⟨by rw [if_neg fun hs => hshort hs.1], rfl⟩

private theorem terminate_eq (h : p.terminate = some q) : q.threads = p.threads ∧ q.terminationSignal = true := by
  obtain ⟨c, -, rfl⟩ := Option.map_eq_some_iff.1 h
  exact ⟨rfl, rfl⟩

private theorem moves (h : p.next e = some q) : Moves p e q := by
  cases e with
  | typed locals line connected =>
    simp only [next] at h
    split at h
    · cases h
    rename_i hguard
    rw [not_or] at hguard
    -- a line that opens a connection has no other outcome
    have hother : ∀ {c : Client} {r : Reaction}, p.client.enter locals line = some (c, r) →
        (∀ request parameters, r ≠ .connect request parameters) →
        ∀ request parameters, AccessLine line request parameters → p.client.verifiedAccess = .online := by
      intro c r henter hr request parameters hline
      by_contra hverified
      have hconnect : p.client.enter locals line = some (p.client, .connect request parameters) :=
        enter_connect_iff.2 ⟨rfl, Status.ne_online.1 hverified, hline⟩
      rw [hconnect] at henter
      cases henter
      exact hr _ _ rfl
    split at h
    · rename_i henter
      cases h
      exact .same rfl (hother henter fun _ _ => Reaction.noConfusion)
    · rename_i henter
      cases h
      exact .same rfl (hother henter fun _ _ => Reaction.noConfusion)
    · rename_i henter
      obtain ⟨rfl, hverified, hline⟩ := enter_connect_iff.1 henter
      obtain ⟨hthreads, hsignal⟩ := connect_eq hline h
      exact .attempt hverified hline hthreads (hsignal.trans (Bool.eq_false_iff.2 hguard.1))
    · cases h
  | full =>
    simp only [next, Option.ite_none_right_eq_some] at h
    obtain ⟨hthreads, hsignal⟩ := terminate_eq h.2
    exact .ends (Or.inl rfl) hthreads hsignal
  | interrupt =>
    obtain ⟨hthreads, hsignal⟩ := terminate_eq h
    exact .ends (Or.inr rfl) hthreads hsignal
  | head k =>
    simp only [next, Option.ite_none_right_eq_some] at h
    obtain ⟨hk, h⟩ := h
    cases h
    exact .thread (Or.inl rfl) hk rfl rfl
  | message k chunk =>
    simp only [next, Option.ite_none_right_eq_some] at h
    obtain ⟨hk, h⟩ := h
    obtain ⟨⟨c, goesOn⟩, -, rfl⟩ := Option.map_eq_some_iff.1 h
    exact .thread (Or.inr (Or.inl ⟨chunk, rfl⟩)) hk rfl rfl
  | closed k =>
    simp only [next, Option.ite_none_right_eq_some] at h
    obtain ⟨hk, h⟩ := h
    obtain ⟨c, -, rfl⟩ := Option.map_eq_some_iff.1 h
    exact .thread (Or.inr (Or.inr rfl)) hk rfl rfl

end Program

/-! ### Every attempt is paired with a thread -/

namespace Counter

variable {s t u : Counter} {e : CounterEvent}

/-- Every slot that has been reached holds a thread, at most one of them is not counted yet, and none is when the program
ends. -/
structure Paired (s : Counter) : Prop where
  created : ∀ slot ∈ s.program.threads, slot ≠ none
  counted : s.threadCount ≤ s.program.threads.length ∧ s.program.threads.length ≤ s.threadCount + 1
  joined : s.program.terminationSignal = true → s.Idle

private theorem Paired.sound (h : Paired s) : Sound s where
  created i hi := by
    have hlt : i < s.program.threads.length := Nat.lt_of_lt_of_le hi h.counted.1
    obtain ⟨t, ht⟩ := Option.ne_none_iff_exists'.1 (h.created _ (List.getElem_mem hlt))
    exact ⟨t, by rw [List.getElem?_eq_getElem hlt, ht]⟩
  joined hsignal i t hi := by
    have hidle : s.program.threads.length = s.threadCount := h.joined hsignal
    rw [← hidle]
    exact (List.getElem?_eq_some_iff.1 hi).1

/-- What one step does to the slots, the signal and the count. -/
private theorem next_moves (h : s.next e = some t) :
    (∃ e' q, e = .run e' ∧ Program.Moves s.program e' q ∧ t = ⟨q, s.threadCount⟩ ∧
    ((∃ locals line connected, e' = .typed locals line connected) ∨ e' = .full → s.Idle)) ∨
    e = .count ∧ ¬ s.Idle ∧ s.program.terminationSignal = false ∧ t = ⟨s.program, s.threadCount + 1⟩ := by
  cases e with
  | count =>
    simp only [next] at h
    split at h
    · cases h
    · rename_i hguard
      cases h
      rw [not_or] at hguard
      exact Or.inr ⟨rfl, hguard.1, Bool.eq_false_iff.2 hguard.2, rfl⟩
  | run e =>
    left
    cases e with
    | typed locals line connected =>
      simp only [next, Option.ite_none_right_eq_some] at h
      obtain ⟨q, hq, rfl⟩ := Option.map_eq_some_iff.1 h.2
      exact ⟨_, q, rfl, Program.moves hq, rfl, fun _ => h.1⟩
    | full =>
      simp only [next, Option.ite_none_right_eq_some] at h
      obtain ⟨q, hq, rfl⟩ := Option.map_eq_some_iff.1 h.2
      exact ⟨_, q, rfl, Program.moves hq, rfl, fun _ => h.1⟩
    | interrupt =>
      obtain ⟨q, hq, rfl⟩ := Option.map_eq_some_iff.1 h
      exact ⟨_, q, rfl, Program.moves hq, rfl, by rintro (⟨_, _, _, h⟩ | h) <;> cases h⟩
    | head k =>
      obtain ⟨q, hq, rfl⟩ := Option.map_eq_some_iff.1 h
      exact ⟨_, q, rfl, Program.moves hq, rfl, by rintro (⟨_, _, _, h⟩ | h) <;> cases h⟩
    | message k chunk =>
      obtain ⟨q, hq, rfl⟩ := Option.map_eq_some_iff.1 h
      exact ⟨_, q, rfl, Program.moves hq, rfl, by rintro (⟨_, _, _, h⟩ | h) <;> cases h⟩
    | closed k =>
      obtain ⟨q, hq, rfl⟩ := Option.map_eq_some_iff.1 h
      exact ⟨_, q, rfl, Program.moves hq, rfl, by rintro (⟨_, _, _, h⟩ | h) <;> cases h⟩

/-- A step that leaves the slots alone. -/
theorem Paired.same (hs : Paired s) {q : Program} (hthreads : q.threads = s.program.threads)
    (hidle : q.terminationSignal = true → s.Idle) : Paired ⟨q, s.threadCount⟩ where
  created := by
    rw [hthreads]
    exact hs.created
  counted := by
    rw [hthreads]
    exact hs.counted
  joined hon := by
    show q.threads.length = s.threadCount
    rw [hthreads]
    exact hidle hon

theorem Paired.next (hs : Paired s) (hpairs : s.Pairs e) (h : s.next e = some t) : Paired t := by
  rcases next_moves h with ⟨e', q, rfl, hmoves, rfl, hidle⟩ | ⟨rfl, hbusy, hsignal, rfl⟩
  · cases hmoves with
    | same hthreads _ =>
      exact hs.same hthreads fun _ => hidle (Or.inl ⟨_, _, _, rfl⟩)
    | attempt hverified hline hthreads hsignal =>
      have hidle : s.program.threads.length = s.threadCount := hidle (Or.inl ⟨_, _, _, rfl⟩)
      rw [if_pos (hpairs _ _ hline hverified)] at hthreads
      refine ⟨?_, ?_, fun hon => by cases hsignal.symm.trans hon⟩
      · rw [hthreads]
        intro slot hslot
        rcases List.mem_append.1 hslot with hslot | hslot
        · exact hs.created slot hslot
        · rw [List.mem_singleton.1 hslot]
          exact Option.some_ne_none _
      · rw [hthreads, List.length_append, hidle]
        exact ⟨Nat.le_add_right _ _, le_rfl⟩
    | ends he hthreads _ =>
      refine hs.same hthreads fun _ => ?_
      rcases he with rfl | rfl
      · exact hidle (Or.inr rfl)
      · exact hpairs
    | thread _ hk hthreads hsignal =>
      refine ⟨?_, ?_, fun hon => ?_⟩
      · rw [hthreads]
        intro slot hslot
        rcases List.mem_or_eq_of_mem_set hslot with hslot | rfl
        · exact hs.created slot hslot
        · exact Option.some_ne_none _
      · rw [hthreads, List.length_set]
        exact hs.counted
      · show q.threads.length = s.threadCount
        rw [hthreads, List.length_set]
        exact hs.joined (hsignal.symm.trans hon)
  · have hcounted := hs.counted
    have hne : s.program.threads.length ≠ s.threadCount := hbusy
    refine ⟨hs.created, ?_, fun hon => by cases hsignal.symm.trans hon⟩
    show s.threadCount + 1 ≤ s.program.threads.length ∧ s.program.threads.length ≤ s.threadCount + 1 + 1
    omega

theorem paired_of_reachable (hr : Reachable (counter.when Pairs) s) : Paired s := by
  refine hr.invariant ?_ ?_
  · rintro s ⟨⟨name, -, hp⟩, hcount⟩
    refine ⟨?_, ?_, fun hon => ?_⟩
    · rw [hp]
      exact fun slot hslot => by cases hslot
    · rw [hp, hcount]
      exact ⟨le_rfl, Nat.zero_le _⟩
    · rw [hp] at hon
      cases hon
  · rintro s e t - hs ⟨hpairs, hnext⟩
    exact hs.next hpairs hnext

/-- The count is right after a step, and still is when the attempt has been counted. -/
def StaysSound (t : Counter) : Prop := t.Sound ∧ ∀ u, t.next .count = some u → u.Sound

/-- An attempt that fails leaves a slot that is counted all the same. -/
private theorem not_sound_of_failure (hidle : s.Idle) {q : Program}
    (hthreads : q.threads = s.program.threads ++ [none]) (hsignal : q.terminationSignal = false) :
    ¬ StaysSound ⟨q, s.threadCount⟩ := by
  rintro ⟨-, hcount⟩
  have hlength : s.program.threads.length = s.threadCount := hidle
  have hguard : ¬ (Idle ⟨q, s.threadCount⟩ ∨ q.terminationSignal = true) := by
    rw [not_or, Idle, hthreads, List.length_append, hlength, List.length_singleton, hsignal]
    exact ⟨Nat.succ_ne_self _, Bool.false_ne_true⟩
  obtain ⟨t, ht⟩ := (hcount _ (if_neg hguard)).created s.threadCount (Nat.lt_succ_self _)
  have hnone : q.threads[s.threadCount]? = some none := by
    rw [hthreads, ← hlength, List.getElem?_concat_length]
  cases hnone.symm.trans ht

/-- A signal between `pthread_create` and the increment misses the thread. -/
private theorem idle_of_interrupt (hs : Paired s) {q : Program} (hthreads : q.threads = s.program.threads)
    (hsignal : q.terminationSignal = true) (hsound : Sound ⟨q, s.threadCount⟩) : s.Idle := by
  by_contra hbusy
  have hne : s.program.threads.length ≠ s.threadCount := hbusy
  have hcounted := hs.counted
  have hlt : s.threadCount < s.program.threads.length := by omega
  obtain ⟨t, ht⟩ := Option.ne_none_iff_exists'.1 (hs.created _ (List.getElem_mem hlt))
  have hslot : q.threads[s.threadCount]? = some (some t) := by
    rw [hthreads, List.getElem?_eq_getElem hlt, ht]
  exact Nat.lt_irrefl _ (hsound.joined hsignal _ t hslot)

private theorem staysSound_iff (hs : Paired s) (h : s.next e = some t) : t.StaysSound ↔ s.Pairs e := by
  constructor
  · intro hsound
    rcases next_moves h with ⟨e', q, rfl, hmoves, rfl, hidle⟩ | ⟨rfl, -⟩
    · cases hmoves with
      | same _ hline => exact fun request parameters haccess hoff => by cases (hline _ _ haccess).symm.trans hoff
      | attempt hverified hline hthreads hsignal =>
        intro request' parameters' hline' _
        obtain ⟨command, -, hwords⟩ := hline.words_eq
        obtain ⟨command', -, hwords'⟩ := hline'.words_eq
        rw [hwords, List.cons.injEq] at hwords'
        rw [← hwords'.2]
        by_contra hfails
        rw [if_neg hfails] at hthreads
        exact not_sound_of_failure (hidle (Or.inl ⟨_, _, _, rfl⟩)) hthreads hsignal hsound
      | ends he hthreads hsignal =>
        rcases he with rfl | rfl
        · trivial
        · exact idle_of_interrupt hs hthreads hsignal hsound.1
      | thread he =>
        rcases he with rfl | ⟨chunk, rfl⟩ | rfl <;> trivial
    · trivial
  · intro hpairs
    have ht := hs.next hpairs h
    exact ⟨ht.sound, fun u hu => (ht.next (e := .count) trivial hu).sound⟩

end Counter

/-- In every run whose attempts all succeed, and whose signals all come outside them, the slots below `thread_count` hold
created threads, and what is joined is every thread that was created.  A step that does not meet this condition breaks it,
by the time the attempt has been counted. -/
theorem joins_created_threads {s : Counter} (hr : Reachable (counter.when Counter.Pairs) s) :
    s.Sound ∧ ∀ e t, s.next e = some t → (t.StaysSound ↔ s.Pairs e) := by
  have hs := Counter.paired_of_reachable hr
  exact ⟨hs.sound, fun e t h => Counter.staysSound_iff hs h⟩

/-- The program as it starts. -/
def Counter.start : Counter := ⟨.start (.empty (by decide)), 0⟩

/-- `/login ann pw h 1`, with a server that is there. -/
theorem joins_created_threads_ann : ∃ s, Reachable counter s ∧ s.program.threads = [some .head] ∧ s.threadCount = 1 ∧
    s.Sound := by
  let login : CounterEvent := .run (.typed ⟨.zero, .zero _⟩ (ascii "/login ann pw h 1\n") true)
  obtain ⟨t, ht⟩ : ∃ t, (Counter.start.next login).bind (fun s => s.next .count) = some t :=
    Option.isSome_iff_exists.1 (by decide)
  have hstate : ((Counter.start.next login).bind (fun s => s.next .count)).map
      (fun s => (s.program.threads, s.threadCount)) = some ([some .head], 1) := by decide
  rw [ht] at hstate
  obtain ⟨hthreads, hcount⟩ := Prod.mk.inj (Option.some.inj hstate)
  obtain ⟨s, hs, hnext⟩ := Option.bind_eq_some_iff.1 ht
  have hpairs : Counter.start.Pairs login := by
    intro request parameters hline _
    obtain ⟨command, -, hwords⟩ := hline.words_eq
    have hline' : words (cstr (ascii "/login ann pw h 1\n")) =
        [ascii "/login", ascii "ann", ascii "pw", ascii "h", ascii "1"] := by decide
    rw [hline', List.cons.injEq] at hwords
    rw [← hwords.2]
    decide
  have hr : Reachable (counter.when Counter.Pairs) t :=
    .step (e := .count) (.step (.init ⟨⟨_, rfl, rfl⟩, rfl⟩) ⟨hpairs, hs⟩) ⟨trivial, hnext⟩
  exact ⟨t, hr.of_when, hthreads, hcount, (joins_created_threads hr).1⟩

/-- A connection that fails: the count passes an empty slot. -/
theorem joins_created_threads_fails : ¬ ∀ s, Reachable counter s → s.Sound := by
  intro h
  let login : CounterEvent := .run (.typed ⟨.zero, .zero _⟩ (ascii "/login ann pw h 1\n") false)
  obtain ⟨t, ht⟩ : ∃ t, (Counter.start.next login).bind (fun s => s.next .count) = some t :=
    Option.isSome_iff_exists.1 (by decide)
  have hstate : ((Counter.start.next login).bind (fun s => s.next .count)).map
      (fun s => (s.program.threads, s.threadCount)) = some ([none], 1) := by decide
  rw [ht] at hstate
  obtain ⟨hthreads, hcount⟩ := Prod.mk.inj (Option.some.inj hstate)
  obtain ⟨s, hs, hnext⟩ := Option.bind_eq_some_iff.1 ht
  have hr : Reachable counter t := .step (.step (.init ⟨⟨_, rfl, rfl⟩, rfl⟩) hs) hnext
  obtain ⟨thread, hthread⟩ := (h t hr).created 0 (by omega)
  rw [hthreads] at hthread
  cases hthread

end Conferencing
