import NetLabs.FileTransfer.Malformed
import NetLabs.FileTransfer.Prompt

/-!
# From the prompt to the directory of the server

The third part as a whole: `deliver` with its input and its directory, the network, and the server.  Whenever `deliver` is
at its prompt, the directory of the server is what the lines read so far ask for, as long as the server drops the copies
of what it has accepted and no packet is left behind when the next file is asked for (`Delivery.InTurn`).
-/

namespace FileTransfer

open CText Transition

/-- What is sent for a file, when its fragments can be counted. -/
def uploadOf (file : Bytes) (fileName : CStr nameLength) : Option Upload :=
  match h : totalFrag file.length with
  | some total => some ⟨file, fileName, total, h⟩
  | none => none

/-- An empty file. -/
def Upload.empty : Upload where
  file := []
  name := .empty (by decide)
  total := 0
  counted := by rw [List.length_nil, totalFrag_eq (by norm_num)]; norm_num

/-- `deliver` with its input, the session, and whether `main` has left its loop; `read` is history, the texts that
`terminal_buffer` has held. -/
structure Delivery where
  stdin : Bytes
  left : Bool
  session : Session
  read : List Bytes

/-- `main` comes to its prompt and reads, or the transfer goes on. -/
inductive DeliveryEvent
  | line
  | step (e : NetEvent)

namespace Delivery

/-- `sendto(socketfd, terminal_buffer, strlen(terminal_buffer), ..)`. -/
def leave (s : Delivery) : Delivery :=
  { s with
    left := true
    session := { s.session with net :=
      { s.session.net with toServer := s.session.net.toServer ++ [ascii "done\n"] } } }

/-- Behind `strtok`: a file that does not exist is refused. -/
def request (dir : Bytes → Option Bytes) (s : Delivery) (fileName : CStr nameLength) : Option Delivery :=
  match dir fileName.bytes with
  | none => some s
  | some file => do
    let u ← uploadOf file fileName
    let session ← s.session.next (.begin u)
    some { s with session := session }

def next (dir : Bytes → Option Bytes) (s : Delivery) : DeliveryEvent → Option Delivery
  | .line =>
    if s.session.net.sender = .finished ∧ s.left = false then
      if s.stdin = [] then some s -- `fgets` fails, and `main` goes on
      else
        let piece := fgets terminalRoom s.stdin
        let s := { s with stdin := s.stdin.drop piece.length, read := s.read ++ [cstr piece] }
        (readCommand (cstr piece)).bind fun
        | .done => some s.leave
        | .refused _ => some s
        | .request fileName => s.request dir fileName
    else none
  -- before the first file `deliver` takes no step of a transfer, so any file will do
  | .step e => do
    let net ← s.session.net.next (s.session.upload.getD .empty) e
    some { s with session := { s.session with net := net } }

def start (stdin : Bytes) (before : Bytes → Option Bytes) : Delivery := ⟨stdin, false, .start before, []⟩

end Delivery

/-- The runs of the program, with the files of `deliver` and those that the server has at first. -/
def delivery (stdin : Bytes) (dir before : Bytes → Option Bytes) : System Delivery DeliveryEvent where
  init s := s = .start stdin before
  step s e t := s.next dir e = some t

/-- The file that a text asks for, when there is one. -/
def requested (dir : Bytes → Option Bytes) (text : Bytes) : Option Upload := do
  let name ← asked text
  let fileName ← CStr.ofBytes? nameLength name
  let file ← dir name
  uploadOf file fileName

/-- No packet is on its way when a file is asked for, and the server drops the copies of what it has accepted. -/
def Delivery.InTurn (dir : Bytes → Option Bytes) (s : Delivery) : DeliveryEvent → Prop
  | .line => requested dir (cstr (fgets terminalRoom s.stdin)) ≠ none → s.session.net.toServer = []
  | .step e => ∀ u, s.session.upload = some u → KeepsNew u s.session.net e

/-- The directory of a server that has received these files one after the other. -/
def storedAll (uploads : List Upload) (before : Bytes → Option Bytes) : Bytes → Option Bytes :=
  uploads.foldl (fun files u => stored files u.field (u.bytes u.total)) before

/-! ### Reading a line -/

section Lines

variable {dir before : Bytes → Option Bytes} {s t : Delivery} {u : Upload} {file : Bytes} {fileName : CStr nameLength}

private theorem uploadOf_some (h : uploadOf file fileName = some u) : u.file = file ∧ u.name = fileName := by
  unfold uploadOf at h
  split at h
  · cases h
    exact ⟨rfl, rfl⟩
  · cases h

private theorem typed_eq {stdin : Bytes} (h : stdin ≠ []) : typed stdin =
    cstr (fgets terminalRoom stdin) :: typed (stdin.drop (fgets terminalRoom stdin).length) := by
  rw [typed, pieces, if_neg h, List.map_cons, typed]

/-- What the line that is read makes `main` do. -/
inductive LineRead (dir : Bytes → Option Bytes) (s : Delivery) (text : Bytes) : Delivery → Prop
  | done (h : text = ascii "done\n") : LineRead dir s text s.leave
  | refused (h : text ≠ ascii "done\n") (hnone : ∀ name, asked text = some name → dir name = none) : LineRead dir s text s
  | request (h : text ≠ ascii "done\n") {u : Upload} (hu : requested dir text = some u) {session : Session}
      (hbegin : s.session.next (.begin u) = some session) : LineRead dir s text { s with session := session }

private theorem Delivery.line_cases (h : s.next dir .line = some t) :
    (s.session.net.sender = .finished ∧ s.left = false) ∧ (s.stdin = [] ∧ t = s ∨ s.stdin ≠ [] ∧
      LineRead dir { s with
        stdin := s.stdin.drop (fgets terminalRoom s.stdin).length
        read := s.read ++ [cstr (fgets terminalRoom s.stdin)] } (cstr (fgets terminalRoom s.stdin)) t) := by
  simp only [Delivery.next, Option.ite_none_right_eq_some] at h
  obtain ⟨hprompt, h⟩ := h
  refine ⟨hprompt, ?_⟩
  by_cases hstdin : s.stdin = []
  · rw [if_pos hstdin] at h
    exact .inl ⟨hstdin, (Option.some.inj h).symm⟩
  right
  rw [if_neg hstdin] at h
  refine ⟨hstdin, ?_⟩
  have hnul := nulFree_cstr (fgets terminalRoom s.stdin)
  generalize cstr (fgets terminalRoom s.stdin) = text at h hnul ⊢
  obtain ⟨c, hread, h⟩ := Option.bind_eq_some_iff.1 h
  by_cases hdone : text = ascii "done\n"
  · subst hdone
    cases hread
    cases h
    exact .done rfl
  rcases outcome_readCommand hnul hdone with ⟨-, c', hread', hc, hname⟩ | ⟨-, hread'⟩
  · obtain rfl : c' = c := Option.some.inj (hread'.symm.trans hread)
    cases c' with
    | done => exact absurd rfl hc
    | refused why =>
      cases h
      refine .refused hdone fun name hasked => ?_
      rw [hasked] at hname
      cases hname
    | request fileName =>
      dsimp only [Delivery.request] at h
      split at h
      · rename_i hdir
        cases h
        refine .refused hdone fun name hasked => ?_
        rw [hasked] at hname
        cases hname
        exact hdir
      · rename_i file hdir
        obtain ⟨u, hu, h⟩ := Option.bind_eq_some_iff.1 h
        obtain ⟨session, hsession, h⟩ := Option.bind_eq_some_iff.1 h
        cases h
        refine .request hdone (u := u) ?_ hsession
        have hcopy := CStr.ofBytes?_eq_some.2 (rfl : fileName.bytes = fileName.bytes)
        simp only [requested, ← hname, Command.name?, Option.bind_eq_bind, Option.bind_some, hcopy, hdir, hu]
  · exact absurd (hread.symm.trans hread') (Option.some_ne_none c)

end Lines

/-! ### The invariant -/

/-- Before `done`: the files asked for so far have been received, but for the last one. -/
inductive Prompted (before : Bytes → Option Bytes) (s : Session) : List Upload → Prop
  | first (upload : s.upload = none) (idle : s.net.Idle) (toServer : s.net.toServer = [])
      (files : s.net.server.files = before) : Prompted before s []
  | later {uploads : List Upload} {u : Upload} (upload : s.upload = some u)
      (before_eq : s.before = storedAll uploads before) (exchange : Exchange u s.before s.net) :
      Prompted before s (uploads ++ [u])

/-- After `done`: the server may have stopped, and late packets may still come. -/
structure Gone (before : Bytes → Option Bytes) (s : Session) (uploads : List Upload) : Prop where
  sender : s.net.sender = .finished
  phase : s.net.server.phase = .outer ∨ s.net.server.phase = .stopped
  files : s.net.server.files = storedAll uploads before
  toServer : ∀ d ∈ s.net.toServer, d = ascii "done\n" ∨ ∃ u, s.upload = some u ∧ ∃ j < s.net.accepted, d = u.datagram j

/-- The invariant of a run. -/
structure Delivered (stdin : Bytes) (dir before : Bytes → Option Bytes) (s : Delivery) : Prop where
  texts : typed stdin = s.read ++ typed s.stdin
  left : s.left = true ↔ ascii "done\n" ∈ s.read
  defined : ∀ text ∈ s.read, ∀ name, asked text = some name → dir name = none ∨ ∃ u, requested dir text = some u
  prompted : s.left = false → Prompted before s.session (s.read.filterMap (requested dir))
  gone : s.left = true → Gone before s.session (s.read.filterMap (requested dir))

section Steps

variable {stdin : Bytes} {dir before : Bytes → Option Bytes} {s t : Session} {uploads : List Upload} {u : Upload}
  {net : Net} {e : NetEvent}

private theorem storedAll_append (uploads : List Upload) (u : Upload) (before : Bytes → Option Bytes) :
    storedAll (uploads ++ [u]) before = stored (storedAll uploads before) u.field (u.bytes u.total) := by
  rw [storedAll, List.foldl_append]
  rfl

/-- At the prompt nothing is going on, and all files have been received. -/
theorem Prompted.idle (h : Prompted before s uploads) (hdone : s.net.sender = .finished) :
    s.net.Idle ∧ s.net.server.files = storedAll uploads before := by
  cases h with
  | first upload idle toServer files => exact ⟨idle, files⟩
  | later upload before_eq exchange =>
    obtain ⟨hfinished, hidle⟩ := exchange.idle hdone
    exact ⟨hidle, by rw [hfinished.files, before_eq, storedAll_append]⟩

private theorem Accepted.not_stopped {files : Bytes → Option Bytes} {server : Server} {k : Nat}
    (h : Accepted u files server k) :
    server.phase ≠ .stopped := by
  cases h with
  | nothing phase => simp [phase]
  | packets _ _ phase =>
    rw [phase, Server.loop]
    split <;> simp

/-- A transfer does not stop the server. -/
private theorem Prompted.not_stopped (h : Prompted before s uploads) : s.net.server.phase ≠ .stopped := by
  cases h with
  | first upload idle toServer files =>
    rw [idle.outer]
    exact ServerPhase.noConfusion
  | later upload before_eq exchange =>
    obtain ⟨replies, hserved, -⟩ := exchange.served
    cases hserved with
    | accepting haccepted => exact haccepted.not_stopped
    | finished hfinished => simp [hfinished.phase]

/-- The next file is asked for. -/
theorem Prompted.begin (h : Prompted before s uploads) (hempty : s.net.toServer = []) (hbegin : s.next (.begin u) = some t) :
    Prompted before t (uploads ++ [u]) := by
  simp only [Session.next, Option.ite_none_right_eq_some] at hbegin
  obtain ⟨hdone, hbegin⟩ := hbegin
  obtain ⟨sender, hnext, hbegin⟩ := Option.bind_eq_some_iff.1 hbegin
  cases hbegin
  obtain ⟨hidle, hfiles⟩ := h.idle hdone
  exact .later rfl hfiles (.begin hidle hempty hnext)

/-- The transfer goes on. -/
theorem Prompted.step (h : Prompted before s uploads) (hkeep : ∀ u, s.upload = some u → KeepsNew u s.net e)
    (hnext : s.net.next (s.upload.getD .empty) e = some net) : Prompted before { s with net := net } uploads := by
  cases h with
  | first upload idle toServer files =>
    rw [upload, Option.getD_none] at hnext
    -- neither side has anything to do
    cases e <;>
      simp [Net.next, idle.sender, idle.toSender, toServer, Server.finish, idle.outer] at hnext
  | @later uploads u upload before_eq exchange =>
    rw [upload, Option.getD_some] at hnext
    exact .later upload before_eq (exchange.step (hkeep u upload) hnext)

/-- `done` is typed. -/
theorem Prompted.leave (h : Prompted before s uploads) (hdone : s.net.sender = .finished) :
    Gone before { s with net := { s.net with toServer := s.net.toServer ++ [ascii "done\n"] } } uploads := by
  obtain ⟨hidle, hfiles⟩ := h.idle hdone
  refine ⟨hdone, .inl hidle.outer, hfiles, fun d hd => ?_⟩
  rcases List.mem_append.1 hd with hd | hd
  · right
    cases h with
    | first upload idle toServer files =>
      rw [toServer] at hd
      cases hd
    | @later uploads u upload before_eq exchange =>
      obtain ⟨j, hj, -, rfl⟩ := exchange.toServer d hd
      obtain ⟨replies, hserved, hle⟩ := exchange.served
      refine ⟨u, upload, j, ?_, rfl⟩
      have hheard : s.net.sender.heard u.total = u.total + 1 := by rw [hdone]; rfl
      have haccepted := exchange.accepted_le
      cases hserved with
      | accepting => omega
      | finished _ hall =>
        show j < s.net.accepted
        omega
  · exact .inl (List.mem_singleton.1 hd)

private theorem recvFrom_done : cstr (Server.recvFrom (ascii "done\n")).bytes = ascii "done\n" := by
  rw [bytes_recvFrom (by decide), show sendingBufferSize - (ascii "done\n").length = 1994 + 1 from rfl, List.replicate_succ]
  exact cstr_append_nul (by decide)

/-- `done` stops a server that is not in a transfer. -/
private theorem Server.receive_done {server : Server} {randNum : Nat} (hphase : server.phase = .outer)
    (hkept : 5 < randNum) :
    ∃ reply, server.receive (ascii "done\n") randNum = some ⟨{ server with phase := .stopped }, [reply], none⟩ := by
  obtain ⟨messages, hack, -⟩ := ackToBuffer_message (fillTheAck server.totalFrag 1 recevd)
  refine ⟨message messages, ?_⟩
  simp only [receive, hphase, hkept, if_true, hack, recvFrom_done, Option.bind_eq_bind, Option.bind_some]

/-- A server that is not in a transfer takes `done`, or drops what it receives. -/
theorem Gone.receive (h : Gone before s uploads) {n randNum : Nat}
    (hkeep : ∀ u, s.upload = some u → KeepsNew u s.net (.receive n randNum))
    (hnext : s.net.next u (.receive n randNum) = some net) : Gone before { s with net := net } uploads := by
  obtain ⟨d, turn, hd, hturn, rfl⟩ := Net.next_receive_iff.1 hnext
  have hto : ∀ d ∈ s.net.toServer.eraseIdx n,
      d = ascii "done\n" ∨ ∃ u, s.upload = some u ∧ ∃ j < s.net.accepted, d = u.datagram j :=
    fun d hd => h.toServer d (List.eraseIdx_subset hd)
  by_cases hkept : 5 < randNum
  · rcases h.toServer d (List.mem_of_getElem? hd) with rfl | ⟨u, hu, j, hj, rfl⟩
    · rcases h.phase with hphase | hphase
      · obtain ⟨reply, hreceive⟩ := Server.receive_done hphase hkept
        obtain rfl := Option.some.inj (hreceive.symm.trans hturn)
        exact ⟨h.sender, .inr rfl, h.files, fun d hd => by simpa using hto d hd⟩
      · simp [Server.receive, hphase] at hturn
    · exact absurd hd (hkeep u hu hkept j hj)
  · obtain rfl := Server.receive_dropped hkept hturn
    exact ⟨h.sender, h.phase, h.files, fun d hd => by simpa using hto d hd⟩

theorem Gone.step (h : Gone before s uploads) (hkeep : ∀ u, s.upload = some u → KeepsNew u s.net e)
    (hnext : s.net.next u e = some net) : Gone before { s with net := net } uploads := by
  cases e with
  | send => simp [Net.next, h.sender] at hnext
  | timeout => simp [Net.next, h.sender] at hnext
  | hear n =>
    obtain ⟨reply, phase, -, hphase, -⟩ := Net.next_hear_iff.1 hnext
    rw [h.sender] at hphase
    cases hphase
  | receive n randNum => exact h.receive hkeep hnext
  | finish =>
    obtain ⟨server, goodbye, hfinish, -⟩ := Net.next_finish_iff.1 hnext
    rcases h.phase with hphase | hphase <;> simp [Server.finish, hphase] at hfinish
  | losePacket n =>
    simp only [Net.next, Option.ite_none_right_eq_some, Option.some.injEq] at hnext
    obtain ⟨-, rfl⟩ := hnext
    exact ⟨h.sender, h.phase, h.files, fun d hd => h.toServer d (List.eraseIdx_subset hd)⟩
  | loseReply n =>
    simp only [Net.next, Option.ite_none_right_eq_some, Option.some.injEq] at hnext
    obtain ⟨-, rfl⟩ := hnext
    exact ⟨h.sender, h.phase, h.files, h.toServer⟩

end Steps

section Runs

variable {stdin : Bytes} {dir before : Bytes → Option Bytes} {s t : Delivery} {e : NetEvent}

private theorem delivered_start (stdin : Bytes) (dir before : Bytes → Option Bytes) :
    Delivered stdin dir before (.start stdin before) :=
  ⟨rfl, by simp [Delivery.start], fun _ h => absurd h List.not_mem_nil,
    fun _ => .first rfl ⟨rfl, rfl, rfl⟩ rfl rfl, fun h => by cases h⟩

private theorem requested_eq_none {text : Bytes} (h : ∀ name, asked text = some name → dir name = none) :
    requested dir text = none := by
  cases hasked : asked text with
  | none => simp [requested, hasked]
  | some name => simp [requested, hasked, h name hasked]

private theorem asked_done : asked (ascii "done\n") = none := by decide

/-- One more text has been read. -/
theorem Delivered.read (h : Delivered stdin dir before s) (hdone : s.session.net.sender = .finished) (hleft : s.left = false)
    {text rest : Bytes} (htexts : typed s.stdin = text :: typed rest)
    (hempty : requested dir text ≠ none → s.session.net.toServer = [])
    (hline : LineRead dir { s with stdin := rest, read := s.read ++ [text] } text t) : Delivered stdin dir before t := by
  have htexts' : typed stdin = (s.read ++ [text]) ++ typed rest := by
    rw [h.texts, htexts, List.append_assoc]
    rfl
  have hprompted := h.prompted hleft
  have hnew : ascii "done\n" ∉ s.read := fun hmem => by simp [h.left.2 hmem] at hleft
  have hdefined : (∀ name, asked text = some name → dir name = none ∨ ∃ u, requested dir text = some u) →
      ∀ text' ∈ s.read ++ [text], ∀ name, asked text' = some name → dir name = none ∨ ∃ u, requested dir text' = some u := by
    intro htext text' hmem
    rcases List.mem_append.1 hmem with hmem | hmem
    · exact h.defined text' hmem
    · rw [List.mem_singleton.1 hmem]
      exact htext
  cases hline with
  | done htext =>
    have hnone : requested dir text = none := requested_eq_none (by simp [htext, asked_done])
    refine ⟨htexts', ?_, hdefined (by simp [htext, asked_done]), fun hleft => (by cases hleft), fun _ => ?_⟩
    · simp [Delivery.leave, htext]
    · simpa [Delivery.leave, hnone] using hprompted.leave hdone
  | refused htext hnone =>
    have hrequested := requested_eq_none hnone
    refine ⟨htexts', ?_, hdefined fun name hasked => .inl (hnone name hasked), fun _ => ?_, fun hleft' => ?_⟩
    · simp [hleft, hnew, Ne.symm htext]
    · simpa [hrequested] using hprompted
    · simp [hleft] at hleft'
  | @request htext u hu session hbegin =>
    refine ⟨htexts', ?_, hdefined fun _ _ => .inr ⟨u, hu⟩, fun _ => ?_, fun hleft' => ?_⟩
    · simp [hleft, hnew, Ne.symm htext]
    · have hbegun := hprompted.begin (hempty (by simp [hu])) hbegin
      simpa [hu] using hbegun
    · simp [hleft] at hleft'

theorem Delivered.step (h : Delivered stdin dir before s) {e : DeliveryEvent} (ho : Delivery.InTurn dir s e)
    (hnext : s.next dir e = some t) : Delivered stdin dir before t := by
  cases e with
  | line =>
    obtain ⟨⟨hdone, hleft⟩, ⟨-, rfl⟩ | ⟨hstdin, hline⟩⟩ := Delivery.line_cases hnext
    · exact h
    · exact h.read hdone hleft (typed_eq hstdin) ho hline
  | step e =>
    obtain ⟨net, hnet, hnext⟩ := Option.bind_eq_some_iff.1 hnext
    cases hnext
    exact ⟨h.texts, h.left, h.defined, fun hleft => (h.prompted hleft).step ho hnet, fun hleft => (h.gone hleft).step ho hnet⟩

private theorem delivered (hr : Reachable ((delivery stdin dir before).when (Delivery.InTurn dir)) s) :
    Delivered stdin dir before s := by
  refine hr.invariant ?_ fun s e t _ hs h => hs.step h.1 h.2
  rintro _ rfl
  exact delivered_start stdin dir before

/-! ### What the lines ask for -/

/-- Whatever order the files came in, each of them is written over what was there at first. -/
private theorem storedAll_apply {uploads : List Upload}
    (h : ∀ u ∈ uploads, dir u.name.bytes = some u.file ∧ colon ∉ u.name.bytes)
    (p : Bytes) : storedAll uploads before p =
      if ∃ u ∈ uploads, u.name.bytes = p then (dir p).map (splice ((before p).getD []) 0) else before p := by
  induction uploads using List.reverseRecOn with
  | nil => simp [storedAll]
  | append_singleton uploads u ih =>
    obtain ⟨hfile, hcolon⟩ := h u (by simp)
    have hrest := ih fun u hu => h u (List.mem_append_left _ hu)
    rw [storedAll_append, Upload.field_of_colonFree hcolon, Upload.bytes_total hcolon]
    by_cases hp : p = u.name.bytes
    · subst hp
      have hmem : ∃ v ∈ uploads ++ [u], v.name.bytes = u.name.bytes :=
        ⟨u, List.mem_append_right _ List.mem_cons_self, rfl⟩
      rw [stored_self, if_pos hmem, hrest, hfile, Option.map_some]
      by_cases hbefore : ∃ v ∈ uploads, v.name.bytes = u.name.bytes
      · -- a file that has been sent before is written over itself
        rw [if_pos hbefore, Option.getD_some, splice_zero, splice_zero, List.drop_left]
      · rw [if_neg hbefore]
    · rw [stored_of_ne hp, hrest]
      simp [Ne.symm hp]

private theorem requested_some {text : Bytes} {u : Upload} (h : requested dir text = some u) :
    asked text = some u.name.bytes ∧ dir u.name.bytes = some u.file := by
  simp only [requested, Option.bind_eq_bind, Option.bind_eq_some_iff] at h
  obtain ⟨name, hasked, fileName, hcopy, file, hdir, hu⟩ := h
  obtain ⟨rfl, rfl⟩ := uploadOf_some hu
  rw [CStr.ofBytes?_eq_some.1 hcopy]
  exact ⟨hasked, hdir⟩

/-- The lines that have been read are the first of the input, `main` has left when one of them was `done`, and only then
does the server stop.  At the prompt the directory of the server is what these lines ask for: the files of these names, each
over what the server had under the name, when no name holds a colon. -/
theorem prompt_to_directory (hr : Reachable ((delivery stdin dir before).when (Delivery.InTurn dir)) s) :
    typed stdin = s.read ++ typed s.stdin ∧ (s.left = true ↔ ascii "done\n" ∈ s.read) ∧
      (s.session.net.server.phase = .stopped → s.left = true) ∧
      (s.session.net.sender = .finished →
        s.session.net.server.files = storedAll (s.read.filterMap (requested dir)) before ∧
        ((∀ text ∈ s.read, ∀ name, asked text = some name → colon ∉ name) → ∀ p, s.session.net.server.files p =
          if (∃ text ∈ s.read, asked text = some p) ∧ dir p ≠ none then (dir p).map (splice ((before p).getD []) 0)
          else before p)) := by
  have h := delivered hr
  have hstopped : s.session.net.server.phase = .stopped → s.left = true := by
    intro hphase
    by_contra hleft
    exact (h.prompted (Bool.eq_false_of_not_eq_true hleft)).not_stopped hphase
  refine ⟨h.texts, h.left, hstopped, fun hdone => ?_⟩
  have hfiles : s.session.net.server.files = storedAll (s.read.filterMap (requested dir)) before := by
    cases hleft : s.left with
    | false => exact ((h.prompted hleft).idle hdone).2
    | true => exact (h.gone hleft).files
  refine ⟨hfiles, fun hcolon p => ?_⟩
  have huploads : ∀ u ∈ s.read.filterMap (requested dir), dir u.name.bytes = some u.file ∧ colon ∉ u.name.bytes := by
    intro u hu
    obtain ⟨text, htext, hrequested⟩ := List.mem_filterMap.1 hu
    obtain ⟨hasked, hdir⟩ := requested_some hrequested
    exact ⟨hdir, hcolon text htext _ hasked⟩
  have hiff : (∃ u ∈ s.read.filterMap (requested dir), u.name.bytes = p) ↔
      (∃ text ∈ s.read, asked text = some p) ∧ dir p ≠ none := by
    constructor
    · rintro ⟨u, hu, rfl⟩
      obtain ⟨text, htext, hrequested⟩ := List.mem_filterMap.1 hu
      obtain ⟨hasked, hdir⟩ := requested_some hrequested
      exact ⟨⟨text, htext, hasked⟩, by simp [hdir]⟩
    · rintro ⟨⟨text, htext, hasked⟩, hdir⟩
      obtain hnone | ⟨u, hu⟩ := h.defined text htext p hasked
      · exact absurd hnone hdir
      · have hname := (requested_some hu).1
        exact ⟨u, List.mem_filterMap.2 ⟨text, htext, hu⟩, Option.some.inj (hname.symm.trans hasked)⟩
  rw [hfiles, storedAll_apply huploads]
  simp only [hiff]

/-- The transfer goes on. -/
theorem Delivery.reachable_step {rest : Bytes} {left : Bool} {u : Upload} {net net' : Net} {read : List Bytes}
    (hr : Reachable ((delivery stdin dir before).when (Delivery.InTurn dir)) ⟨rest, left, ⟨some u, net, before⟩, read⟩)
    (hkeep : KeepsNew u net e) (h : net.next u e = some net') :
    Reachable ((delivery stdin dir before).when (Delivery.InTurn dir)) ⟨rest, left, ⟨some u, net', before⟩, read⟩ := by
  have hnext : Delivery.next dir ⟨rest, left, ⟨some u, net, before⟩, read⟩ (.step e) =
      some ⟨rest, left, ⟨some u, net', before⟩, read⟩ := by
    simp only [Delivery.next, Option.getD_some, h, Option.bind_eq_bind, Option.bind_some]
  refine .step hr (e := .step e) ⟨?_, hnext⟩
  rintro _ ⟨⟩
  exact hkeep

private theorem uploadOf_eq (u : Upload) : uploadOf u.file u.name = some u := by
  have hcounted := u.counted
  unfold uploadOf
  split
  · rename_i total h
    obtain rfl : total = u.total := Option.some.inj (h.symm.trans hcounted)
    rfl
  · rename_i h
    rw [hcounted] at h
    cases h

/-- The directory that holds `letter`. -/
def letterDir : Bytes → Option Bytes := fun p => if p = letter.name.bytes then some letter.file else none

/-- `letter` is asked for, and the user leaves. -/
abbrev letterDelivery : System Delivery DeliveryEvent :=
  (delivery (ascii "ftp letter\ndone\n") letterDir fun _ => none).when (Delivery.InTurn letterDir)

private theorem reachable_letterDelivery : ∃ s, Reachable letterDelivery s ∧ s.session.net.sender = .finished ∧
    s.read = [ascii "ftp letter\n", ascii "done\n"] ∧ s.session.net.server.phase = .stopped := by
  have hnothing : Accepted letter (fun _ => none) ⟨.outer, 0, fun _ => none⟩ 0 := .nothing rfl rfl
  obtain ⟨server, hreceive, haccepted⟩ := hnothing.receive Nat.one_pos (show 5 < 100 by decide)
  obtain ⟨server', goodbye, hfinish⟩ := haccepted.finish_of_length rfl Nat.one_pos (by decide)
  have hfinished := (haccepted.finish le_rfl hfinish).2
  have hfirst := Upload.nextFragment_of_lt letter.count_lt Nat.one_pos
  have hrequest : readCommand (cstr (ascii "ftp letter\n")) = some (.request letter.name) := by decide
  have hbegin : Delivery.next letterDir (.start (ascii "ftp letter\ndone\n") fun _ => none) .line =
      some ⟨ascii "done\n", false, ⟨some letter, ⟨.sending 0 (letter.datagram 0), ⟨.outer, 0, fun _ => none⟩, [], [], [],
        0, false⟩, fun _ => none⟩, [ascii "ftp letter\n"]⟩ := by
    have hpiece : fgets terminalRoom (ascii "ftp letter\ndone\n") = ascii "ftp letter\n" := by decide
    have hfile : letterDir letter.name.bytes = some letter.file := if_pos rfl
    simp only [Delivery.next, Delivery.start, Session.start, hpiece, hrequest, Delivery.request, hfile, uploadOf_eq,
      Session.next, hfirst, Option.bind_eq_bind, Option.bind_some, and_self, if_true]
    rfl
  have h₀ : Reachable letterDelivery _ := .step (.init rfl) (e := .line) ⟨fun _ => rfl, hbegin⟩
  have h₁ := Delivery.reachable_step h₀ (e := .send) trivial rfl
  have h₂ := Delivery.reachable_step h₁ (e := .receive 0 100) (fun _ j hj => absurd hj (Nat.not_lt_zero j))
    (Net.next_receive (n := 0) rfl hreceive)
  have h₃ := Delivery.reachable_step h₂ (e := .finish) trivial (Net.next_finish_iff.2 ⟨_, _, hfinish, rfl⟩)
  have hlast : letter.hear (.waiting 0 (letter.datagram 0)) = some .goodbye :=
    Upload.nextFragment_of_le (u := letter) (i := 1) le_rfl
  have h₄ := Delivery.reachable_step h₃ (e := .hear 0) trivial (Net.next_hear_iff.2 ⟨_, _, rfl, hlast, rfl⟩)
  have h₅ := Delivery.reachable_step h₄ (e := .hear 0) trivial (Net.next_hear_iff.2 ⟨_, _, rfl, rfl, rfl⟩)
  have hdone : requested letterDir (ascii "done\n") = none := by decide
  have h₆ : Reachable letterDelivery _ := .step h₅ (e := .line) ⟨fun h => absurd hdone h, rfl⟩
  obtain ⟨reply, hstop⟩ := Server.receive_done hfinished.phase (show 5 < 100 by decide)
  have h₇ := Delivery.reachable_step h₆ (e := .receive 0 100) (fun _ j _ hcopy => ?_) (Net.next_receive (n := 0) rfl hstop)
  · exact ⟨_, h₇, rfl, rfl, rfl⟩
  · -- `done` is no packet
    have hdatagram : ascii "done\n" = letter.datagram j := Option.some.inj hcopy
    exact recvFrom_ne_done letter j (hdatagram ▸ recvFrom_done)

theorem prompt_to_directory_letter : ∃ s, Reachable letterDelivery s ∧ s.left = true ∧
    ∀ p, s.session.net.server.files p = if p = ascii "letter" then some [97] else none := by
  obtain ⟨s, hr, hdone, hread, hstopped⟩ := reachable_letterDelivery
  obtain ⟨-, -, hleft, hserver⟩ := prompt_to_directory hr
  obtain ⟨-, hfiles⟩ := hserver hdone
  refine ⟨s, hr, hleft hstopped, fun p => ?_⟩
  have hasked : (∃ text ∈ s.read, asked text = some p) ↔ p = ascii "letter" := by
    have hfirst : asked (ascii "ftp letter\n") = some (ascii "letter") := by decide
    simp [hread, hfirst, asked_done, eq_comm]
  rw [hfiles (by rw [hread]; decide)]
  simp only [hasked]
  by_cases hp : p = ascii "letter"
  · subst hp
    rfl
  · rw [if_neg (fun h => hp h.1), if_neg hp]

end Runs

end FileTransfer
