import NetLabs.FileTransfer.LateAcks

/-!
# One transfer after the other

`deliver` sends one file after the other to a server that keeps its directory and the count of the last transfer.  As long
as the server drops the copies of what it has accepted (`InTurn`), it accepts the packets of each file one after the other
(`Exchange`), whatever else is late or lost; when `deliver` has heard the goodbye message, the file that the server took
for the named one holds what it has received, followed by the rest of what it held before (`Finished`).
-/

namespace FileTransfer

open CText Transition

/-- `deliver` with the file on its way (or the last one), its server, and the directory of the server when the transfer
began, which is history. -/
structure Session where
  upload : Option Upload
  net : Net
  before : Bytes → Option Bytes

/-- The user names the next file, or the transfer goes on. -/
inductive SessionEvent
  | begin (u : Upload)
  | step (e : NetEvent)

def Session.next (s : Session) : SessionEvent → Option Session
  | .begin u =>
    if s.net.sender = .finished then do
      let sender ← u.nextFragment 0
      some ⟨some u, { s.net with sender := sender, written := [], accepted := 0, dropped := false }, s.net.server.files⟩
    else none
  | .step e => do
    let u ← s.upload
    let net ← s.net.next u e
    some { s with net := net }

/-- The server after its start, with any directory. -/
def Session.start (files : Bytes → Option Bytes) : Session :=
  ⟨none, ⟨.finished, ⟨.outer, 0, files⟩, [], [], [], 0, false⟩, files⟩

/-- The runs of any number of transfers. -/
def session : System Session SessionEvent where
  init s := ∃ files, s = .start files
  step s e t := s.next e = some t

/-- No packet of an earlier transfer is on its way when the next one begins, and the server drops the copies of what it has
accepted. -/
def InTurn (s : Session) : SessionEvent → Prop
  | .begin _ => s.net.toServer = []
  | .step e => ∀ u, s.upload = some u → KeepsNew u s.net e

/-! ### The directory -/

/-- The directory with bytes written over the start of one file. -/
def stored (files : Bytes → Option Bytes) (path bytes : Bytes) : Bytes → Option Bytes :=
  fun p => if p = path then some (splice ((files p).getD []) 0 bytes) else files p

theorem openFile_eq (files : Bytes → Option Bytes) (path : Bytes) :
    Server.openFile files path = (stored files path [], ⟨path, 0⟩) := by
  refine Prod.ext ?_ rfl
  funext p
  by_cases hp : p = path <;> simp only [Server.openFile, stored, splice_nil, hp, if_true, if_false]

theorem write_stored (files : Bytes → Option Bytes) (path bytes data : Bytes) :
    Server.write (stored files path bytes) ⟨path, bytes.length⟩ data =
      (stored files path (bytes ++ data), ⟨path, (bytes ++ data).length⟩) := by
  simp only [Server.write, Prod.mk.injEq, List.length_append, and_true]
  funext p
  by_cases hp : p = path
  · simp only [stored, hp, if_true, Option.map_some, splice_zero_append]
  · simp only [stored, hp, if_false]

/-! ### The server -/

/-- What the server has written after `k` packets. -/
def Upload.bytes (u : Upload) (k : Nat) : Bytes := (List.range k).flatMap u.received

theorem Upload.bytes_succ (u : Upload) (k : Nat) : u.bytes (k + 1) = u.bytes k ++ u.received k := by
  rw [bytes, List.range_succ, List.flatMap_append, List.flatMap_singleton]
  rfl

/-- The server has accepted `k` packets, and has not sent the goodbye message. -/
inductive Accepted (u : Upload) (before : Bytes → Option Bytes) (s : Server) : Nat → Prop
  | nothing (phase : s.phase = .outer) (files : s.files = before) : Accepted u before s 0
  | packets {k : Nat} {receiver : Packet} {name : CArray nameLength} (pos : 0 < k)
      (count : s.totalFrag = UInt32.ofNat u.total)
      (phase : s.phase = Server.loop s.totalFrag k receiver name ⟨u.field, (u.bytes k).length⟩)
      (name_eq : cstr name.bytes = u.field) (files : s.files = stored before u.field (u.bytes k)) : Accepted u before s k

/-- The server has sent the goodbye message. -/
structure Finished (u : Upload) (before : Bytes → Option Bytes) (s : Server) : Prop where
  phase : s.phase = .outer
  files : s.files = stored before u.field (u.bytes u.total)

section Server

variable {u : Upload} {before : Bytes → Option Bytes} {s server : Server} {k randNum : Nat} {goodbye : Bytes}

theorem toNat_total (u : Upload) : (UInt32.ofNat u.total).toNat = u.total := by
  have := Upload.total_lt u.count_lt
  rw [UInt32.toNat_ofNat']
  omega

/-- The head of the loop, once the server has the count. -/
theorem loop_total (u : Upload) (k : Nat) (receiver : Packet) (name : CArray nameLength) (fd : Fd) :
    Server.loop (UInt32.ofNat u.total) k receiver name fd =
      if k < u.total then .inner k receiver name fd else .ending name := by
  rw [Server.loop, toNat_total]

theorem nul_not_mem_endOfFile {name : Bytes} (h : (0 : Byte) ∉ name) :
    (0 : Byte) ∉ ascii "End of File Transfer for " ++ name ++ ascii ".\n" := by
  rw [List.mem_append, List.mem_append]
  rintro ((hmem | hmem) | hmem)
  · exact absurd hmem (by decide)
  · exact h hmem
  · exact absurd hmem (by decide)

/-- The next packet, when it is not dropped. -/
theorem Accepted.receive (h : Accepted u before s k) (hk : k < u.total) (hkeep : 5 < randNum) :
    ∃ server, s.receive (u.datagram k) randNum =
        some ⟨server, [ackText (fillTheAck s.totalFrag (UInt32.ofNat (k + 1)) recevd) ++ [0]], some (u.received k)⟩ ∧
      Accepted u before server (k + 1) := by
  cases h with
  | nothing phase files =>
    -- the first packet opens the file, and is written at its start
    obtain ⟨receiver, name, hr, hreceive⟩ := Server.receive_outer u 0 phase hkeep
    have hwrite := write_stored before u.field [] (u.received 0)
    have hbytes : u.bytes 1 = [] ++ u.received 0 := u.bytes_succ 0
    rw [← hbytes] at hwrite
    simp only [files, openFile_eq] at hreceive
    rw [show (⟨u.field, 0⟩ : Fd) = ⟨u.field, ([] : Bytes).length⟩ from rfl, hwrite] at hreceive
    exact ⟨_, hreceive, .packets Nat.one_pos hr.totalFrag rfl hr.name rfl⟩
  | packets pos count phase name_eq files =>
    rw [count, loop_total, if_pos hk] at phase
    obtain ⟨receiver, name, hr, hreceive⟩ := Server.receive_inner u k phase hkeep
    have hwrite := write_stored before u.field (u.bytes k) (u.received k)
    rw [← u.bytes_succ k] at hwrite
    simp only [files, hwrite] at hreceive
    exact ⟨_, hreceive, .packets (Nat.succ_pos k) count rfl hr.name rfl⟩

/-- The goodbye message goes out behind the last packet. -/
theorem Accepted.finish (h : Accepted u before s k) (hk : k ≤ u.total) (hfinish : s.finish = some (server, goodbye)) :
    k = u.total ∧ Finished u before server := by
  cases h with
  | nothing phase _ =>
    simp only [Server.finish, phase] at hfinish
    cases hfinish
  | packets pos count phase name_eq files =>
    rw [count, loop_total] at phase
    by_cases hin : k < u.total
    · rw [if_pos hin] at phase
      simp only [Server.finish, phase] at hfinish
      cases hfinish
    · rw [if_neg hin] at phase
      obtain hlast : k = u.total := le_antisymm hk (Nat.not_lt.1 hin)
      simp only [Server.finish, phase] at hfinish
      obtain ⟨endOfFile, -, hfinish⟩ := Option.bind_eq_some_iff.1 hfinish
      cases hfinish
      exact ⟨hlast, rfl, hlast ▸ files⟩

/-- The goodbye message has room for a name of this length. -/
theorem Accepted.finish_of_length (h : Accepted u before s k) (hk : k = u.total) (hpos : 0 < k)
    (hname : u.field.length ≤ 228) : ∃ server goodbye, s.finish = some (server, goodbye) := by
  cases h with
  | nothing => omega
  | @packets _ receiver name pos count phase name_eq files =>
    rw [count, loop_total, if_neg (by omega)] at phase
    have hnul := nul_not_mem_endOfFile (nulFree_cstr name.bytes)
    -- the name and the 27 bytes around it fit `messages`
    have hroom : (ascii "End of File Transfer for " ++ cstr name.bytes ++ ascii ".\n").length < 256 := by
      rw [name_eq, List.length_append, List.length_append]
      have hhead : (ascii "End of File Transfer for ").length = 25 := rfl
      have htail : (ascii ".\n").length = 2 := rfl
      omega
    simp only [Server.finish, phase, CArray.strcpy_append_nul _ hnul hroom, Option.bind_eq_bind, Option.bind_some]
    exact ⟨_, _, rfl⟩

theorem Finished.finish (h : Finished u before s) : s.finish = none := by
  simp only [Server.finish, h.phase]

end Server

/-! ### The exchange -/

/-- The replies that the server has sent. -/
inductive Served (u : Upload) (before : Bytes → Option Bytes) (s : Server) (accepted : Nat) : Nat → Prop
  | accepting (h : Accepted u before s accepted) : Served u before s accepted accepted
  | finished (h : Finished u before s) (hall : accepted = u.total) : Served u before s accepted (u.total + 1)

/-- The invariant of a transfer in a session. -/
structure Exchange (u : Upload) (before : Bytes → Option Bytes) (s : Net) : Prop where
  sending : s.SendsFile u
  toServer : ∀ d ∈ s.toServer, ∃ j < u.total, j ≤ s.sender.heard u.total ∧ d = u.datagram j
  accepted_le : s.accepted ≤ u.total
  served : ∃ replies, Served u before s.server s.accepted replies ∧
    s.sender.heard u.total + s.toSender.length ≤ replies

section Steps

variable {u : Upload} {before : Bytes → Option Bytes} {s t : Net} {e : NetEvent} {n randNum : Nat}

theorem Exchange.send (hx : Exchange u before s) (h : s.next u .send = some t) : Exchange u before t := by
  obtain ⟨hsending, hheard, i, hi, hsi, rfl⟩ := hx.sending.send h
  refine ⟨hsending, ?_, hx.accepted_le, by rw [hheard]; exact hx.served⟩
  intro d hd
  rw [hheard]
  rcases List.mem_append.1 hd with hd | hd
  · exact hx.toServer d hd
  · exact ⟨i, hi, hsi.ge, List.mem_singleton.1 hd⟩

theorem Exchange.timeout (hx : Exchange u before s) (h : s.next u .timeout = some t) : Exchange u before t := by
  obtain ⟨hsending, hheard, ht⟩ := hx.sending.timeout h
  have hto := hx.toServer
  have hserved := hx.served
  rw [← hheard] at hto hserved
  rw [ht] at hsending ⊢
  exact ⟨hsending, hto, hx.accepted_le, hserved⟩

/-- Each reply takes the sender one step further. -/
theorem Exchange.hear (hx : Exchange u before s) (h : s.next u (.hear n) = some t) : Exchange u before t := by
  obtain ⟨hsending, hheard, hn, ht⟩ := hx.sending.hear h
  obtain ⟨replies, hserved, hle⟩ := hx.served
  have hlen : (s.toSender.eraseIdx n).length + 1 = s.toSender.length := by
    rw [List.length_eraseIdx_of_lt hn]
    omega
  rw [ht] at hsending ⊢
  refine ⟨hsending, fun d hd => ?_, hx.accepted_le, replies, hserved, ?_⟩
  · obtain ⟨j, hj, hjle, rfl⟩ := hx.toServer d hd
    exact ⟨j, hj, by show j ≤ t.sender.heard u.total; omega, rfl⟩
  · show t.sender.heard u.total + (s.toSender.eraseIdx n).length ≤ replies
    omega

/-- What the server may accept is the packet that it has not accepted yet. -/
theorem Exchange.expected (hx : Exchange u before s) (hkeep : KeepsNew u s (.receive n randNum)) (hkept : 5 < randNum)
    {d : Bytes} (hd : s.toServer[n]? = some d) :
    d = u.datagram s.accepted ∧ s.accepted < u.total ∧ Accepted u before s.server s.accepted := by
  obtain ⟨j, hj, hjle, rfl⟩ := hx.toServer d (List.mem_of_getElem? hd)
  have hnew : s.accepted ≤ j := by
    by_contra hlt
    exact hkeep hkept j (by omega) hd
  obtain ⟨replies, hserved, hle⟩ := hx.served
  cases hserved with
  | accepting h =>
    obtain rfl : j = s.accepted := by omega
    exact ⟨rfl, hj, h⟩
  | finished h hall => omega

theorem Exchange.receive (hx : Exchange u before s) (hkeep : KeepsNew u s (.receive n randNum))
    (h : s.next u (.receive n randNum) = some t) : Exchange u before t := by
  obtain ⟨d, turn, hd, hturn, rfl⟩ := Net.next_receive_iff.1 h
  obtain ⟨replies, hserved, hle⟩ := hx.served
  have hto : ∀ d ∈ s.toServer.eraseIdx n, ∃ j < u.total, j ≤ s.sender.heard u.total ∧ d = u.datagram j :=
    fun d hd => hx.toServer d (List.eraseIdx_subset hd)
  by_cases hkept : 5 < randNum
  · obtain ⟨rfl, hlt, haccepted⟩ := hx.expected hkeep hkept hd
    obtain ⟨server, hreceive, hnext⟩ := haccepted.receive hlt hkept
    obtain rfl := Option.some.inj (hreceive.symm.trans hturn)
    -- behind the goodbye message there is no packet left to accept
    have hreplies : replies = s.accepted := by
      cases hserved with
      | accepting h => rfl
      | finished h hall => omega
    refine ⟨hx.sending, hto, hlt, s.accepted + 1, .accepting hnext, ?_⟩
    show s.sender.heard u.total + (s.toSender ++ [_]).length ≤ s.accepted + 1
    rw [List.length_append, List.length_singleton]
    omega
  · obtain rfl := Server.receive_dropped hkept hturn
    exact ⟨hx.sending, hto, hx.accepted_le, replies, hserved, by simpa using hle⟩

theorem Exchange.finish (hx : Exchange u before s) (h : s.next u .finish = some t) : Exchange u before t := by
  obtain ⟨server, goodbye, hfinish, rfl⟩ := Net.next_finish_iff.1 h
  obtain ⟨replies, hserved, hle⟩ := hx.served
  cases hserved with
  | accepting haccepted =>
    obtain ⟨hall, hfinished⟩ := haccepted.finish hx.accepted_le hfinish
    refine ⟨hx.sending, hx.toServer, hx.accepted_le, u.total + 1, .finished hfinished hall, ?_⟩
    show s.sender.heard u.total + (s.toSender ++ [goodbye]).length ≤ u.total + 1
    rw [List.length_append, List.length_singleton]
    omega
  | finished hfinished hall =>
    rw [hfinished.finish] at hfinish
    cases hfinish

theorem Exchange.step (hx : Exchange u before s) (hkeep : KeepsNew u s e) (h : s.next u e = some t) :
    Exchange u before t := by
  cases e with
  | send => exact hx.send h
  | timeout => exact hx.timeout h
  | hear n => exact hx.hear h
  | receive n randNum => exact hx.receive hkeep h
  | finish => exact hx.finish h
  | losePacket n =>
    simp only [Net.next, Option.ite_none_right_eq_some, Option.some.injEq] at h
    obtain ⟨-, rfl⟩ := h
    exact ⟨hx.sending, fun d hd => hx.toServer d (List.eraseIdx_subset hd), hx.accepted_le, hx.served⟩
  | loseReply n =>
    simp only [Net.next, Option.ite_none_right_eq_some, Option.some.injEq] at h
    obtain ⟨hn, rfl⟩ := h
    obtain ⟨replies, hserved, hle⟩ := hx.served
    refine ⟨hx.sending, hx.toServer, hx.accepted_le, replies, hserved, ?_⟩
    have hlen := List.length_eraseIdx_le s.toSender n
    show s.sender.heard u.total + (s.toSender.eraseIdx n).length ≤ replies
    omega

end Steps

/-! ### The sessions -/

/-- `deliver` and the server have finished with each other. -/
structure Net.Idle (s : Net) : Prop where
  sender : s.sender = .finished
  outer : s.server.phase = .outer
  toSender : s.toSender = []

/-- What holds before the first transfer and in each one. -/
def Session.Orderly (s : Session) : Prop :=
  (s.upload = none → s.net.Idle) ∧ ∀ u, s.upload = some u → Exchange u s.before s.net

section Sessions

variable {u : Upload} {before : Bytes → Option Bytes} {s t : Session} {net : Net} {e : SessionEvent}

/-- `deliver` has heard the goodbye message only when the server has sent it. -/
theorem Exchange.idle (hx : Exchange u before net) (hdone : net.sender = .finished) :
    Finished u before net.server ∧ net.Idle := by
  obtain ⟨replies, hserved, hle⟩ := hx.served
  have hle' := hx.accepted_le
  have hheard : net.sender.heard u.total = u.total + 1 := by rw [hdone]; rfl
  cases hserved with
  | accepting h => omega
  | finished h hall => exact ⟨h, hdone, h.phase, List.eq_nil_of_length_eq_zero (by omega)⟩

theorem Exchange.begin (hidle : net.Idle) (hempty : net.toServer = []) {sender : SenderPhase}
    (hnext : u.nextFragment 0 = some sender) :
    Exchange u net.server.files { net with sender := sender, written := [], accepted := 0, dropped := false } := by
  obtain ⟨phase, hphase, hheard, hsending⟩ := nextFragment_heard (Nat.zero_le u.total)
  obtain rfl : phase = sender := Option.some.inj (hphase.symm.trans hnext)
  refine ⟨hsending, by simp [hempty], Nat.zero_le _, 0, .accepting (.nothing hidle.outer rfl), ?_⟩
  show phase.heard u.total + net.toSender.length ≤ 0
  rw [hheard, hidle.toSender]
  exact le_rfl

theorem Session.Orderly.idle (hs : s.Orderly) (hdone : s.net.sender = .finished) : s.net.Idle := by
  cases hu : s.upload with
  | none => exact hs.1 hu
  | some u => exact ((hs.2 u hu).idle hdone).2

theorem Session.Orderly.step (hs : s.Orderly) (ho : InTurn s e) (h : s.next e = some t) : t.Orderly := by
  cases e with
  | begin u =>
    simp only [Session.next, Option.ite_none_right_eq_some] at h
    obtain ⟨hdone, h⟩ := h
    obtain ⟨sender, hnext, h⟩ := Option.bind_eq_some_iff.1 h
    cases h
    refine ⟨fun hnone => (Option.some_ne_none _ hnone).elim, ?_⟩
    rintro _ ⟨⟩
    exact .begin (hs.idle hdone) ho hnext
  | step e =>
    obtain ⟨u, hu, h⟩ := Option.bind_eq_some_iff.1 h
    obtain ⟨net, hnet, h⟩ := Option.bind_eq_some_iff.1 h
    cases h
    refine ⟨fun hnone => (Option.some_ne_none u (hu.symm.trans hnone)).elim, fun u' hu' => ?_⟩
    obtain rfl : u' = u := Option.some.inj (hu'.symm.trans hu)
    exact (hs.2 u' hu).step (ho u' hu) hnet

theorem Session.orderly (hr : Reachable (session.when InTurn) s) : s.Orderly := by
  refine hr.invariant ?_ fun s e t _ hs h => hs.step h.1 h.2
  rintro _ ⟨files, rfl⟩
  exact ⟨fun _ => ⟨rfl, rfl, rfl⟩, fun u hu => (Option.some_ne_none u hu.symm).elim⟩

end Sessions

/-! ### A whole transfer -/

section Complete

variable {u : Upload} {before : Bytes → Option Bytes} {net net' : Net} {i : Nat}

/-- The transfer goes on. -/
theorem Session.reachable_step {e : NetEvent} (hr : Reachable (session.when InTurn) ⟨some u, net, before⟩)
    (ho : KeepsNew u net e) (h : net.next u e = some net') :
    Reachable (session.when InTurn) ⟨some u, net', before⟩ := by
  have hnext : Session.next ⟨some u, net, before⟩ (.step e) = some ⟨some u, net', before⟩ := by
    simp only [Session.next, h, Option.bind_eq_bind, Option.bind_some]
  refine .step hr (e := .step e) ⟨?_, hnext⟩
  rintro _ ⟨⟩
  exact ho

theorem Net.next_hear {reply : Bytes} {replies : List Bytes} {phase : SenderPhase} (hreply : net.toSender = reply :: replies)
    (hphase : u.hear net.sender = some phase) :
    net.next u (.hear 0) = some { net with sender := phase, toSender := replies } :=
  Net.next_hear_iff.2 ⟨reply, phase, by rw [hreply, List.getElem?_cons_zero], hphase, by rw [hreply, List.eraseIdx_cons_zero]⟩

/-- Where the two sides stand, when the server has accepted `k` packets. -/
structure Standing (u : Upload) (before : Bytes → Option Bytes) (s : Net) (sender : SenderPhase)
    (toServer toSender : List Bytes) (k : Nat) : Prop where
  sender : s.sender = sender
  toServer : s.toServer = toServer
  toSender : s.toSender = toSender
  accepted : s.accepted = k
  server : Accepted u before s.server k

theorem Session.reachable_begin {s : Session} (hr : Reachable (session.when InTurn) s) (hs : s.net.Idle)
    (hempty : s.net.toServer = []) (hpos : 0 < u.total) :
    ∃ net, Reachable (session.when InTurn) ⟨some u, net, s.net.server.files⟩ ∧
      Standing u s.net.server.files net (.sending 0 (u.datagram 0)) [] [] 0 ∧ net.server = s.net.server := by
  have hfirst := Upload.nextFragment_of_lt u.count_lt hpos
  have hbegin : s.next (.begin u) = some ⟨some u, { s.net with
      sender := .sending 0 (u.datagram 0), written := [], accepted := 0, dropped := false }, s.net.server.files⟩ := by
    simp only [Session.next, hs.sender, if_true, hfirst, Option.bind_eq_bind, Option.bind_some]
  exact ⟨_, .step hr (e := .begin u) ⟨hempty, hbegin⟩, ⟨rfl, hempty, hs.toSender, rfl, .nothing hs.outer rfl⟩, rfl⟩

/-- A packet goes out. -/
theorem Session.reachable_sent (hr : Reachable (session.when InTurn) ⟨some u, net, before⟩)
    (hs : Standing u before net (.sending i (u.datagram i)) [] [] i) :
    ∃ net', Reachable (session.when InTurn) ⟨some u, net', before⟩ ∧
      Standing u before net' (.waiting i (u.datagram i)) [u.datagram i] [] i ∧ net'.server = net.server := by
  have hsend : net.next u .send = some
      { net with sender := .waiting i (u.datagram i), toServer := [u.datagram i], dropped := false } := by
    simp only [Net.next, hs.sender, hs.toServer, List.nil_append]
  exact ⟨_, reachable_step hr (e := .send) trivial hsend, ⟨rfl, rfl, hs.toSender, hs.accepted, hs.server⟩, rfl⟩

/-- It is accepted. -/
private theorem Session.reachable_answered (hr : Reachable (session.when InTurn) ⟨some u, net, before⟩)
    (hi : i < u.total)
    (hs : Standing u before net (.waiting i (u.datagram i)) [u.datagram i] [] i) :
    ∃ net' reply, Reachable (session.when InTurn) ⟨some u, net', before⟩ ∧
      Standing u before net' (.waiting i (u.datagram i)) [] [reply] (i + 1) := by
  obtain ⟨server, hreceive, hnext⟩ := hs.server.receive hi (show 5 < 100 by decide)
  have hnew : KeepsNew u net (.receive 0 100) := by
    intro _ j hj hcopy
    rw [hs.toServer] at hcopy
    rw [hs.accepted] at hj
    have htotal := Upload.total_lt u.count_lt
    have := u.datagram_injective (by omega) (by omega) (Option.some.inj hcopy)
    omega
  have hreceived := Net.next_receive (u := u) (n := 0) (by rw [hs.toServer]; rfl) hreceive
  refine ⟨_, ackText (fillTheAck net.server.totalFrag (UInt32.ofNat (i + 1)) recevd) ++ [0],
    reachable_step hr hnew hreceived, hs.sender, ?_, ?_, ?_, hnext⟩
  · show net.toServer.eraseIdx 0 = []
    rw [hs.toServer]
    rfl
  · show net.toSender ++ [_] = [_]
    rw [hs.toSender, List.nil_append]
  · show net.accepted + 1 = i + 1
    rw [hs.accepted]

/-- The sender hears of it, and goes on to the next packet. -/
theorem Session.reachable_next (hr : Reachable (session.when InTurn) ⟨some u, net, before⟩) (hi : i + 1 < u.total)
    (hs : Standing u before net (.sending i (u.datagram i)) [] [] i) :
    ∃ net', Reachable (session.when InTurn) ⟨some u, net', before⟩ ∧
      Standing u before net' (.sending (i + 1) (u.datagram (i + 1))) [] [] (i + 1) := by
  obtain ⟨sent, hsent, hs, -⟩ := reachable_sent hr hs
  obtain ⟨answered, reply, hanswered, hs⟩ := reachable_answered hsent (by omega) hs
  have hhear : u.hear answered.sender = some (.sending (i + 1) (u.datagram (i + 1))) := by
    rw [hs.sender, Upload.hear, Upload.nextFragment_of_lt u.count_lt hi]
  exact ⟨_, reachable_step hanswered (e := .hear 0) trivial (Net.next_hear hs.toSender hhear),
    rfl, hs.toServer, rfl, hs.accepted, hs.server⟩

/-- From any packet on, the rest of the file can be sent. -/
private theorem Session.reachable_rest (hname : u.field.length ≤ 228) {k : Nat} (hk : i + k + 1 = u.total)
    (hr : Reachable (session.when InTurn) ⟨some u, net, before⟩)
    (hs : Standing u before net (.sending i (u.datagram i)) [] [] i) :
    ∃ net', Reachable (session.when InTurn) ⟨some u, net', before⟩ ∧ net'.sender = .finished ∧ net'.toServer = [] := by
  induction k generalizing net i with
  | zero =>
    obtain ⟨sent, hsent, hs, -⟩ := reachable_sent hr hs
    obtain ⟨answered, reply, hanswered, hs⟩ := reachable_answered hsent (by omega) hs
    obtain ⟨server, goodbye, hfinish⟩ := hs.server.finish_of_length (by omega) (Nat.succ_pos i) hname
    have hnext : answered.next u .finish =
        some { answered with server := server, toSender := [reply] ++ [goodbye] } := by
      simp only [Net.next, hfinish, hs.toSender, Option.bind_eq_bind, Option.bind_some]
    have hended := reachable_step hanswered (e := .finish) trivial hnext
    have hhear : u.hear answered.sender = some .goodbye := by
      rw [hs.sender, Upload.hear, Upload.nextFragment_of_le (by omega)]
    have hheard := reachable_step hended (e := .hear 0) trivial (Net.next_hear rfl hhear)
    exact ⟨_, reachable_step hheard (e := .hear 0) trivial (Net.next_hear rfl rfl), rfl, hs.toServer⟩
  | succ k ih =>
    obtain ⟨net, hnext, hs⟩ := reachable_next hr (by omega) hs
    exact ih (by omega) hnext hs

/-- Any transfer of a file that is not empty can begin and end. -/
private theorem Session.reachable_finished {s : Session} (hr : Reachable (session.when InTurn) s) (hs : s.net.Idle)
    (hempty : s.net.toServer = []) (hpos : 0 < u.total) (hname : u.field.length ≤ 228) :
    ∃ net, Reachable (session.when InTurn) ⟨some u, net, s.net.server.files⟩ ∧ net.sender = .finished ∧
      net.toServer = [] := by
  obtain ⟨net, hbegin, hs, -⟩ := reachable_begin (u := u) hr hs hempty hpos
  exact reachable_rest hname (k := u.total - 1) (by omega) hbegin hs

end Complete

/-! ### What a transfer leaves -/

/-- After a transfer the file of that name is the one that was sent, and the others are as they were. -/
def Session.Replaces (s : Session) (u : Upload) : Prop :=
  s.net.server.files u.name.bytes = some u.file ∧ ∀ p, p ≠ u.name.bytes → s.net.server.files p = s.before p

/-- The server opens the file without truncating it, so the old one must not be longer.  It takes what is before a colon
for the name, so a file whose name holds a colon must be there already, and the bytes must be the start of the other file
too. -/
structure Upload.Covers (u : Upload) (before : Bytes → Option Bytes) : Prop where
  whole : colon ∉ u.name.bytes → ((before u.name.bytes).getD []).length ≤ u.file.length
  elsewhere : colon ∈ u.name.bytes → before u.name.bytes = some u.file ∧
    ∃ old, before u.field = some old ∧ u.bytes u.total <+: old

section Replaces

variable {u : Upload} {before : Bytes → Option Bytes} {s : Session} {path bytes p : Bytes}

theorem stored_self (before : Bytes → Option Bytes) (path bytes : Bytes) :
    stored before path bytes path = some (splice ((before path).getD []) 0 bytes) := if_pos rfl

theorem stored_of_ne (h : p ≠ path) : stored before path bytes p = before p := if_neg h

theorem Upload.bytes_total (hcolon : colon ∉ u.name.bytes) : u.bytes u.total = u.file := by
  have hreceived : u.received = u.fragment := funext (received_of_colonFree hcolon)
  rw [bytes, hreceived, flatMap_fragment, take_total u.count_lt]

/-- Writing over a file from its start leaves these bytes alone when it is not longer. -/
private theorem splice_zero_eq_iff {old new : Bytes} : splice old 0 new = new ↔ old.length ≤ new.length := by
  rw [splice_zero, List.append_right_eq_self, List.drop_eq_nil_iff]

/-- Writing over a file changes nothing when the bytes are there. -/
private theorem stored_eq_iff :
    stored before path bytes path = before path ↔ ∃ old, before path = some old ∧ bytes <+: old := by
  rw [stored_self]
  cases before path with
  | none => simp
  | some old => simp [splice_zero, List.prefix_iff_eq_append]

private theorem Finished.replaces_iff (h : Finished u s.before s.net.server) : s.Replaces u ↔ u.Covers s.before := by
  by_cases hcolon : colon ∈ u.name.bytes
  · have hne : u.field ≠ u.name.bytes := fun heq => u.colon_not_mem_field (heq ▸ hcolon)
    have hnamed : s.net.server.files u.name.bytes = s.before u.name.bytes := by
      rw [h.files, stored_of_ne hne.symm]
    rw [Session.Replaces, hnamed]
    constructor
    · rintro ⟨hfile, hothers⟩
      have hfield := hothers u.field hne
      rw [h.files, stored_eq_iff] at hfield
      exact ⟨fun hfree => absurd hcolon hfree, fun _ => ⟨hfile, hfield⟩⟩
    · rintro ⟨-, helsewhere⟩
      obtain ⟨hfile, hfield⟩ := helsewhere hcolon
      refine ⟨hfile, fun p _ => ?_⟩
      rw [h.files]
      by_cases hp : p = u.field
      · rw [hp, stored_eq_iff]
        exact hfield
      · exact stored_of_ne hp
  · have hfield := Upload.field_of_colonFree hcolon
    have hbytes := Upload.bytes_total hcolon
    have hfiles : s.net.server.files = stored s.before u.name.bytes u.file := by rw [h.files, hfield, hbytes]
    rw [Session.Replaces, hfiles, stored_self, Option.some.injEq, splice_zero_eq_iff]
    constructor
    · rintro ⟨hlen, -⟩
      exact ⟨fun _ => hlen, fun hmem => absurd hmem hcolon⟩
    · rintro ⟨hwhole, -⟩
      exact ⟨hwhole hcolon, fun p hp => stored_of_ne hp⟩

end Replaces

/-- At the end of every transfer, whatever transfers came before and whatever the directory held at first. -/
theorem transfer_replaces_file {u : Upload} {s : Session} (hr : Reachable (session.when InTurn) s)
    (hu : s.upload = some u) (hdone : s.net.sender = .finished) : s.Replaces u ↔ u.Covers s.before :=
  (((Session.orderly hr).2 u hu).idle hdone).1.replaces_iff

/-- A file of one byte. -/
def letter : Upload where
  file := [97]
  name := ⟨ascii "letter", by decide, by decide⟩
  total := 1
  counted := by
    have hceil : ⌈((1 : ℕ) : ℚ) / fileFragSize⌉ = 1 := by norm_num [Int.ceil_eq_iff]
    rw [List.length_singleton, totalFrag_eq (by rw [hceil]; norm_num), hceil]
    rfl

/-- A longer file of the same name. -/
def word : Upload where
  file := ascii "bc"
  name := letter.name
  total := 1
  counted := by
    have hceil : ⌈((2 : ℕ) : ℚ) / fileFragSize⌉ = 1 := by norm_num [Int.ceil_eq_iff]
    rw [show (ascii "bc").length = 2 from rfl, totalFrag_eq (by rw [hceil]; norm_num), hceil]
    rfl

private theorem reachable_letter (files : Bytes → Option Bytes) :
    ∃ net, Reachable (session.when InTurn) ⟨some letter, net, files⟩ ∧
    net.sender = .finished ∧ net.toServer = [] ∧
      net.server.files letter.name.bytes = some (splice ((files letter.name.bytes).getD []) 0 [97]) := by
  obtain ⟨net, hr, hdone, hempty⟩ := Session.reachable_finished (u := letter) (s := .start files) (.init ⟨files, rfl⟩)
    ⟨rfl, rfl, rfl⟩ rfl Nat.one_pos (by decide)
  obtain ⟨hfinished, -⟩ := ((Session.orderly hr).2 letter rfl).idle hdone
  have hbytes : letter.bytes letter.total = [97] := Upload.bytes_total (by decide)
  have hfield : letter.field = letter.name.bytes := Upload.field_of_colonFree (by decide)
  refine ⟨net, hr, hdone, hempty, ?_⟩
  rw [hfinished.files, hbytes, hfield, stored_self]
  rfl

/-- A file of one byte is sent to a server without files, and after it the longer file of the same name. -/
theorem transfer_replaces_file_word : ∃ s, Reachable (session.when InTurn) s ∧ s.upload = some word ∧
    s.before word.name.bytes = some (ascii "a") ∧ s.net.sender = .finished ∧ s.Replaces word := by
  obtain ⟨net, hr, hdone, hempty, hfirst⟩ := reachable_letter fun _ => none
  obtain ⟨-, hidle⟩ := ((Session.orderly hr).2 letter rfl).idle hdone
  obtain ⟨net', hr', hdone', -⟩ := Session.reachable_finished (u := word) hr hidle hempty Nat.one_pos (by decide)
  have hcovers : word.Covers net.server.files := by
    refine ⟨fun _ => ?_, fun hcolon => absurd hcolon (by decide)⟩
    rw [show word.name = letter.name from rfl, hfirst]
    decide
  exact ⟨_, hr', rfl, hfirst, hdone', (transfer_replaces_file hr' rfl hdone').2 hcovers⟩

/-- The server held three bytes under the name; two of them are still there. -/
theorem transfer_replaces_file_fails : ∃ s, Reachable (session.when InTurn) s ∧ s.upload = some letter ∧
    s.net.sender = .finished ∧ s.net.server.files letter.name.bytes = some (ascii "ayz") ∧ ¬ s.Replaces letter := by
  obtain ⟨net, hr, hdone, -, hfiles⟩ := reachable_letter fun _ => some (ascii "xyz")
  refine ⟨_, hr, rfl, hdone, hfiles, fun hreplaces => ?_⟩
  have hsent := hfiles.symm.trans hreplaces.1
  exact absurd hsent (by decide)

end FileTransfer
