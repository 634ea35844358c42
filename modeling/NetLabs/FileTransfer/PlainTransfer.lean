import NetLabs.FileTransfer.Session

/-!
# Sending a file without a timer (`File_Transfer_Lab_Part_II`)

The second part has the packets of the third, a `deliver` that waits for each reply without a timer, and a server that
drops nothing, replies with a text, and reads every packet of a file into one buffer that it does not clear.  What is
lost is lost: a transfer comes to an end exactly when the network loses nothing (`transfer_completes_iff`).

`deliver` reads and sends the fragments as in the third part (`Upload.nextFragment`).  Printing and the system calls
that fail are left out.  The last four fields of `Net` are history.
-/

namespace FileTransfer

open CText Transition

namespace Plain

/-! ### The server -/

inductive ServerPhase
  | outer
  | inner (i : Nat) (receiver : Packet) (name : CArray nameLength) (fd : Fd) (buffer : CArray sendingBufferSize)
  | ending (name : CArray nameLength)
  | stopped

structure Server where
  phase : ServerPhase
  totalFrag : UInt32
  files : Bytes → Option Bytes

/-- What a datagram makes the server do. -/
structure Turn where
  server : Server
  reply : Option Bytes

/-- `"Received %d packets out of %d, waiting for %d more"`. -/
def receivedText (received totalFrag more : UInt32) : Bytes :=
  ascii "Received " ++ printD received ++ ascii " packets out of " ++ printD totalFrag ++ ascii ", waiting for " ++
    printD more ++ ascii " more"

/-- `sprintf` into one of the two arrays for replies, and `sendto(socketfd, message, strlen(message) + 1, ..)`. -/
def sendText (received totalFrag more : UInt32) : Option Bytes :=
  ((CArray.zero nameLength).strcpy (receivedText received totalFrag more ++ [0])).map FileTransfer.Server.message

/-- `recvfrom` fits a datagram to the buffer. -/
private theorem fits_buffer (datagram : Bytes) : 0 + (datagram.take sendingBufferSize).length ≤ sendingBufferSize := by
  rw [Nat.zero_add]
  exact List.length_take_le _ _

namespace Server

/-- The head of the loop over the fragments. -/
def loop (totalFrag : UInt32) (i : Nat) (receiver : Packet) (name : CArray nameLength) (fd : Fd)
    (buffer : CArray sendingBufferSize) : ServerPhase :=
  if i < totalFrag.toNat then .inner i receiver name fd buffer else .ending name

/-- The `recvfrom` of either loop and what follows it. -/
def receive (s : Server) (datagram : Bytes) : Option Turn :=
  match s.phase with
  | .outer => do
    let buffer := FileTransfer.Server.recvFrom datagram
    if cstr buffer.bytes = ascii "done\n" then some ⟨{ s with phase := .stopped }, none⟩
    else do
      let (receiver, name) ← bufferToPacket (CArray.zero 12) Packet.zero (CArray.zero nameLength) buffer.bytes
      let (files, fd) := FileTransfer.Server.openFile s.files receiver.filename
      let messages ← sendText 1 receiver.totalFrag (receiver.totalFrag - 1)
      let (files, fd) := FileTransfer.Server.write files fd (receiver.filedata.bytes.take receiver.size.toNat)
      some ⟨⟨loop receiver.totalFrag 1 receiver name fd buffer, receiver.totalFrag, files⟩, some messages⟩
  | .inner i receiver name fd buffer => do
    -- `buffer` keeps what the new datagram does not reach
    let buffer := buffer.write 0 (datagram.take sendingBufferSize) (fits_buffer datagram)
    let message ← sendText (UInt32.ofNat (i + 1)) s.totalFrag (s.totalFrag - UInt32.ofNat i - 1)
    let (receiver, name) ← bufferToPacket (CArray.zero 12) receiver name buffer.bytes
    let (files, fd) := FileTransfer.Server.write s.files fd (receiver.filedata.bytes.take receiver.size.toNat)
    some ⟨⟨loop s.totalFrag (i + 1) receiver name fd buffer, s.totalFrag, files⟩, some message⟩
  | _ => none

/-- What follows the loop over the fragments. -/
def finish (s : Server) : Option (Server × Bytes) :=
  match s.phase with
  | .ending name => do
    let endOfFile ← (CArray.zero 256).strcpy
      (ascii "End of File Transfer for " ++ cstr name.bytes ++ ascii ".\n" ++ [0])
    some ({ s with phase := .outer }, FileTransfer.Server.message endOfFile)
  | _ => none

end Server

/-! ### deliver -/

/-- What follows the `recvfrom` of either loop.  A newline is put behind what was received. -/
def hear (u : Upload) (sender : SenderPhase) (reply : Bytes) : Option SenderPhase :=
  match sender with
  | .waiting i _ =>
    if cstr (reply.take 255 ++ [10]) = ascii "packet missing!" then some .goodbye else u.nextFragment (i + 1)
  | .goodbye => some .finished
  | _ => none

/-! ### The network -/

structure Net where
  sender : SenderPhase
  server : Server
  toServer : List Bytes
  toSender : List Bytes
  /-- How many packets the server has received. -/
  received : Nat
  /-- What the server has sent. -/
  replies : List Bytes
  lostPackets : Nat
  lostReplies : Nat

/-- A step of one side, or the loss of a datagram; `n` picks the datagram. -/
inductive NetEvent
  | send
  | hear (n : Nat)
  | receive (n : Nat)
  | finish
  | losePacket (n : Nat)
  | loseReply (n : Nat)

/-- The network loses a datagram. -/
def NetEvent.loses : NetEvent → Bool
  | .losePacket _ => true
  | .loseReply _ => true
  | _ => false

namespace Net

def next (u : Upload) (s : Net) : NetEvent → Option Net
  | .send => match s.sender with
    | .sending i data => some { s with sender := .waiting i data, toServer := s.toServer ++ [data] }
    | _ => none
  | .hear n => do
    let reply ← s.toSender[n]?
    let sender ← Plain.hear u s.sender reply
    some { s with sender := sender, toSender := s.toSender.eraseIdx n }
  | .receive n => do
    let datagram ← s.toServer[n]?
    let turn ← s.server.receive datagram
    some { s with
      server := turn.server
      toServer := s.toServer.eraseIdx n
      toSender := s.toSender ++ turn.reply.toList
      received := s.received + 1
      replies := s.replies ++ turn.reply.toList }
  | .finish => do
    let (server, goodbye) ← s.server.finish
    some { s with server := server, toSender := s.toSender ++ [goodbye], replies := s.replies ++ [goodbye] }
  | .losePacket n =>
    if n < s.toServer.length then
      some { s with toServer := s.toServer.eraseIdx n, lostPackets := s.lostPackets + 1 }
    else none
  | .loseReply n =>
    if n < s.toSender.length then
      some { s with toSender := s.toSender.eraseIdx n, lostReplies := s.lostReplies + 1 }
    else none

/-- `deliver` starts to send a file that is not empty, to a server that waits for one. -/
structure Begins (u : Upload) (before : Bytes → Option Bytes) (s : Net) : Prop where
  sender : u.nextFragment 0 = some s.sender
  outer : s.server.phase = .outer
  files : s.server.files = before
  toServer : s.toServer = []
  toSender : s.toSender = []
  received : s.received = 0
  replies : s.replies = []
  lostPackets : s.lostPackets = 0
  lostReplies : s.lostReplies = 0

end Net

/-- The runs of one transfer. -/
def transfer (u : Upload) (before : Bytes → Option Bytes) : System Net NetEvent where
  init s := s.Begins u before
  step s e t := s.next u e = some t

/-! ### What the server sends -/

private theorem nul_not_mem_receivedText (received totalFrag more : UInt32) :
    (0 : Byte) ∉ receivedText received totalFrag more := by
  have hd : ∀ v, (0 : Byte) ∉ printD v := fun v => not_mem_printD (by decide) (by decide)
  simp only [receivedText, List.mem_append, not_or]
  exact ⟨⟨⟨⟨⟨⟨by decide, hd _⟩, by decide⟩, hd _⟩, by decide⟩, hd _⟩, by decide⟩

private theorem sendText_eq (received totalFrag more : UInt32) :
    sendText received totalFrag more = some (receivedText received totalFrag more ++ [0]) := by
  have hnul := nul_not_mem_receivedText received totalFrag more
  have hlen : (receivedText received totalFrag more).length < 256 := by
    have h₁ := length_printD_le received
    have h₂ := length_printD_le totalFrag
    have h₃ := length_printD_le more
    have hwords : (ascii "Received ").length + (ascii " packets out of ").length + (ascii ", waiting for ").length +
        (ascii " more").length = 44 := rfl
    simp only [receivedText, List.length_append]
    omega
  rw [sendText, CArray.strcpy_append_nul _ hnul hlen, Option.map_some, FileTransfer.Server.message, cstr_write_nul,
    cstr_of_nulFree hnul]

/-- The reply to packet `k`, which counts from 0 here. -/
def replyText (u : Upload) (k : Nat) : Bytes :=
  receivedText (UInt32.ofNat (k + 1)) (UInt32.ofNat u.total) (UInt32.ofNat (u.total - (k + 1))) ++ [0]

/-- The goodbye message. -/
def goodbyeText (u : Upload) : Bytes := ascii "End of File Transfer for " ++ u.field ++ ascii ".\n" ++ [0]

/-- The server has received `k` packets, and has not sent the goodbye message. -/
inductive Accepting (u : Upload) (before : Bytes → Option Bytes) (s : Server) : Nat → Prop
  | nothing (phase : s.phase = .outer) (files : s.files = before) : Accepting u before s 0
  | packets {k : Nat} {receiver : Packet} {name : CArray nameLength} {buffer : CArray sendingBufferSize} (pos : 0 < k)
      (count : s.totalFrag = UInt32.ofNat u.total)
      (phase : s.phase = Server.loop s.totalFrag k receiver name ⟨u.field, (u.bytes k).length⟩ buffer)
      (name_eq : cstr name.bytes = u.field) (files : s.files = stored before u.field (u.bytes k)) :
      Accepting u before s k

/-- How many packets the server has received, and what it has sent. -/
inductive Served (u : Upload) (before : Bytes → Option Bytes) (s : Server) : Nat → List Bytes → Prop
  | accepting {k : Nat} (h : Accepting u before s k) (hk : k ≤ u.total) :
      Served u before s k ((List.range k).map (replyText u))
  | finished (pos : 0 < u.total) (phase : s.phase = .outer) (files : s.files = stored before u.field (u.bytes u.total)) :
      Served u before s u.total ((List.range u.total).map (replyText u) ++ [goodbyeText u])

section Server

variable {u : Upload} {before : Bytes → Option Bytes} {s server : Server} {k : Nat} {goodbye : Bytes}

theorem loop_total (u : Upload) (k : Nat) (receiver : Packet) (name : CArray nameLength) (fd : Fd)
    (buffer : CArray sendingBufferSize) :
    Server.loop (UInt32.ofNat u.total) k receiver name fd buffer =
      if k < u.total then .inner k receiver name fd buffer else .ending name := by
  rw [Server.loop, toNat_total]

/-- A packet of the file, whatever stands behind it in the buffer. -/
private theorem write_datagram (u : Upload) (i : Nat) (buffer : CArray sendingBufferSize) : ∃ rest,
    (buffer.write 0 ((u.datagram i).take sendingBufferSize) (fits_buffer _)).bytes = u.datagram i ++ rest :=
  ⟨_, by rw [CArray.bytes_write_zero, take_datagram]⟩

/-- Each packet is answered and written. -/
theorem Accepting.receive (h : Accepting u before s k) (hk : k < u.total) :
    ∃ server, s.receive (u.datagram k) = some ⟨server, some (replyText u k)⟩ ∧ Accepting u before server (k + 1) := by
  have htotal := toNat_total u
  cases h with
  | nothing phase files =>
    obtain ⟨receiver, name, hread, hr⟩ :=
      bufferToPacket_received u 0 (CArray.zero 12) Packet.zero (CArray.zero nameLength)
    have hwrite := write_stored before u.field [] (u.received 0)
    have hbytes : u.bytes 1 = [] ++ u.received 0 := u.bytes_succ 0
    rw [← hbytes] at hwrite
    have hmore : UInt32.ofNat u.total - 1 = UInt32.ofNat (u.total - 1) :=
      (UInt32.ofNat_sub hk).symm
    simp only [Server.receive, phase, recvFrom_ne_done, ↓reduceIte, hread, sendText_eq, hr.totalFrag, hr.filename, hr.data,
      files, openFile_eq, Option.bind_eq_bind, Option.bind_some]
    rw [show (⟨u.field, 0⟩ : Fd) = ⟨u.field, ([] : Bytes).length⟩ from rfl, hwrite, hmore]
    exact ⟨_, rfl, .packets Nat.one_pos rfl rfl hr.name rfl⟩
  | @packets _ receiver name buffer pos count phase name_eq files =>
    rw [count, loop_total, if_pos hk] at phase
    obtain ⟨rest, hbuffer⟩ := write_datagram u k buffer
    obtain ⟨receiver', name', hread, hr⟩ := bufferToPacket_datagram u k (CArray.zero 12) receiver name rest
    have hwrite := write_stored before u.field (u.bytes k) (u.received k)
    rw [← u.bytes_succ k] at hwrite
    have hmore : UInt32.ofNat u.total - UInt32.ofNat k - 1 = UInt32.ofNat (u.total - (k + 1)) := by
      rw [← Nat.sub_sub, UInt32.ofNat_sub (by omega), UInt32.ofNat_sub (by omega)]
      rfl
    simp only [Server.receive, phase, hbuffer, hread, sendText_eq, hr.data, files, hwrite, count, Option.bind_eq_bind,
      Option.bind_some, hmore]
    exact ⟨_, rfl, .packets (Nat.succ_pos k) rfl rfl hr.name rfl⟩

/-- The goodbye message goes out behind the last packet. -/
theorem Accepting.finish (h : Accepting u before s k) (hk : k ≤ u.total) (hfinish : s.finish = some (server, goodbye)) :
    0 < k ∧ k = u.total ∧ goodbye = goodbyeText u ∧ server.phase = .outer ∧
      server.files = stored before u.field (u.bytes u.total) := by
  cases h with
  | nothing phase _ =>
    simp only [Server.finish, phase] at hfinish
    cases hfinish
  | packets pos count phase name_eq files =>
    rw [count, loop_total] at phase
    by_cases hin : k < u.total
    · rw [if_pos hin] at phase
      simp only [Server.finish, phase] at hfinish
      cases hfinish
    · rw [if_neg hin] at phase
      obtain hlast : k = u.total := le_antisymm hk (Nat.not_lt.1 hin)
      simp only [Server.finish, phase, name_eq] at hfinish
      obtain ⟨endOfFile, hcopy, hfinish⟩ := Option.bind_eq_some_iff.1 hfinish
      cases hfinish
      refine ⟨pos, hlast, ?_, rfl, hlast ▸ files⟩
      have hnul := nul_not_mem_endOfFile u.nul_not_mem_field
      have htext : cstr (ascii "End of File Transfer for " ++ u.field ++ ascii ".\n" ++ [0]) =
          ascii "End of File Transfer for " ++ u.field ++ ascii ".\n" := cstr_append_nul hnul
      simp only [CArray.strcpy, htext] at hcopy
      split at hcopy
      · cases hcopy
        rw [FileTransfer.Server.message, cstr_write_nul, cstr_of_nulFree hnul, goodbyeText]
      · cases hcopy

/-- The goodbye message has room for a name of this length. -/
theorem Accepting.finish_of_length (h : Accepting u before s k) (hk : k = u.total) (hpos : 0 < k)
    (hname : u.field.length ≤ 228) : ∃ server goodbye, s.finish = some (server, goodbye) := by
  cases h with
  | nothing => omega
  | @packets _ receiver name buffer pos count phase name_eq files =>
    rw [count, loop_total, if_neg (by omega)] at phase
    have hnul := nul_not_mem_endOfFile u.nul_not_mem_field
    have hroom : (ascii "End of File Transfer for " ++ u.field ++ ascii ".\n").length < 256 := by
      rw [List.length_append, List.length_append]
      have hhead : (ascii "End of File Transfer for ").length = 25 := rfl
      have htail : (ascii ".\n").length = 2 := rfl
      omega
    simp only [Server.finish, phase, name_eq, CArray.strcpy_append_nul _ hnul hroom, Option.bind_eq_bind,
      Option.bind_some]
    exact ⟨_, _, rfl⟩

end Server

/-! ### The exchange -/

/-- How many packets the sender has sent. -/
def sent (total : Nat) : SenderPhase → Nat
  | .sending i _ => i
  | .waiting i _ => i + 1
  | .goodbye => total
  | .finished => total

/-- The steps that a transfer has taken, losses among them. -/
def steps (u : Upload) (s : Net) : Nat :=
  sent u.total s.sender + s.sender.heard u.total + s.replies.length + s.lostPackets + s.lostReplies

/-- What holds in every state: where each packet and each reply has gone. -/
structure Running (u : Upload) (before : Bytes → Option Bytes) (s : Net) : Prop where
  sending : ∀ i data, s.sender = .sending i data ∨ s.sender = .waiting i data → i < u.total ∧ data = u.datagram i
  packets : s.received + s.toServer.length + s.lostPackets = sent u.total s.sender
  heard : s.sender.heard u.total + s.toSender.length + s.lostReplies = s.replies.length
  toServer : ∀ d ∈ s.toServer, d = u.datagram s.received
  toSender : ∀ r ∈ s.toSender, r ∈ s.replies
  served : Served u before s.server s.received s.replies

section Running

variable {u : Upload} {before : Bytes → Option Bytes} {s t : Net} {e : NetEvent} {sender sender' : SenderPhase}
  {n k : Nat} {replies : List Bytes} {reply : Bytes}

theorem Served.length_eq {server : Server} (h : Served u before server k replies) :
    k ≤ u.total ∧ (replies.length = k ∧ Accepting u before server k ∨
      replies.length = k + 1 ∧ k = u.total ∧ server.files = stored before u.field (u.bytes u.total)) := by
  cases h with
  | accepting h hk => exact ⟨hk, Or.inl ⟨by simp, h⟩⟩
  | finished _ _ files => exact ⟨le_rfl, Or.inr ⟨by simp, rfl, files⟩⟩

private theorem Served.replies_eq {server : Server} (h : Served u before server k replies) (hlen : replies.length = k) :
    replies = (List.range k).map (replyText u) := by
  cases h with
  | accepting _ _ => rfl
  | finished _ _ _ =>
    rw [List.length_append, List.length_map, List.length_range] at hlen
    exact absurd hlen (Nat.succ_ne_self _)

/-- No reply is the text that `deliver` compares it with. -/
private theorem Served.not_missing {server : Server} (h : Served u before server k replies) (hr : reply ∈ replies) :
    cstr (reply.take 255 ++ [10]) ≠ ascii "packet missing!" := by
  have hhead : reply.head? = some 82 ∨ reply.head? = some 69 := by
    cases h with
    | accepting _ _ =>
      obtain ⟨j, -, rfl⟩ := List.mem_map.1 hr
      exact Or.inl rfl
    | finished _ _ _ =>
      rcases List.mem_append.1 hr with hr | hr
      · obtain ⟨j, -, rfl⟩ := List.mem_map.1 hr
        exact Or.inl rfl
      · rw [List.mem_singleton.1 hr]
        exact Or.inr rfl
  intro hmissing
  have hfirst := congrArg List.head? hmissing
  cases reply with
  | nil => rcases hhead with h | h <;> cases h
  | cons b reply =>
    rcases hhead with h | h <;> cases h <;> exact absurd hfirst (by simp [cstr, ascii])

/-- A reply takes the sender one step further. -/
private theorem hear_eq (hreply : cstr (reply.take 255 ++ [10]) ≠ ascii "packet missing!")
    (h : hear u sender reply = some sender')
    (hsending : ∀ i data, sender = .waiting i data → i < u.total) :
    (∀ i data, sender' = .sending i data ∨ sender' = .waiting i data → i < u.total ∧ data = u.datagram i) ∧
      sent u.total sender' = sent u.total sender ∧ sender'.heard u.total = sender.heard u.total + 1 := by
  cases sender with
  | waiting i data =>
    have hi := hsending i data rfl
    simp only [hear, hreply, if_false] at h
    by_cases hlast : i + 1 < u.total
    · rw [Upload.nextFragment_of_lt u.count_lt hlast] at h
      cases h
      refine ⟨fun j d hj => ?_, rfl, rfl⟩
      rcases hj with hj | hj <;> cases hj
      exact ⟨hlast, rfl⟩
    · rw [Upload.nextFragment_of_le (by omega)] at h
      cases h
      refine ⟨fun j d hj => (by rcases hj with hj | hj <;> cases hj), ?_, ?_⟩
      · simp only [sent]
        omega
      · simp only [SenderPhase.heard]
        omega
  | goodbye =>
    cases h
    exact ⟨fun j d hj => (by rcases hj with hj | hj <;> cases hj), rfl, rfl⟩
  | sending i data => cases h
  | finished => cases h

private theorem sent_le (hsending : ∀ i data, sender = .sending i data ∨ sender = .waiting i data →
    i < u.total ∧ data = u.datagram i) :
    sent u.total sender ≤ u.total ∧ sent u.total sender ≤ sender.heard u.total + 1 ∧
      sender.heard u.total ≤ u.total + 1 := by
  cases sender with
  | sending i data =>
    have hi := (hsending i data (.inl rfl)).1
    simp only [sent, SenderPhase.heard]
    omega
  | waiting i data =>
    have hi := (hsending i data (.inr rfl)).1
    simp only [sent, SenderPhase.heard]
    omega
  | goodbye => simp only [sent, SenderPhase.heard]; omega
  | finished => simp only [sent, SenderPhase.heard]; omega

/-- A packet on its way is the next one that the server waits for, and it is the only one. -/
private theorem Running.awaited (h : Running u before s) (hpos : s.received < sent u.total s.sender) :
    s.received < u.total ∧ sent u.total s.sender = s.received + 1 ∧ s.replies.length = s.received ∧
      Accepting u before s.server s.received := by
  obtain ⟨htotal, hnext, -⟩ := sent_le h.sending
  have hheard := h.heard
  obtain ⟨-, ⟨hlen, haccepting⟩ | ⟨-, hall, -⟩⟩ := h.served.length_eq
  · exact ⟨by omega, by omega, hlen, haccepting⟩
  · omega

theorem Running.send (h : Running u before s) (hnext : s.next u .send = some t) :
    Running u before t ∧ steps u t = steps u s + 1 := by
  cases hsender : s.sender with
  | sending i data =>
    simp only [Net.next, hsender] at hnext
    cases hnext
    obtain ⟨hi, rfl⟩ := h.sending i data (.inl hsender)
    have hpackets := h.packets
    have hheard := h.heard
    rw [hsender] at hpackets hheard
    simp only [sent, SenderPhase.heard] at hpackets hheard
    -- every packet before this one has been answered
    have hreceived : s.received = i := by
      obtain ⟨-, ⟨hlen, -⟩ | ⟨-, hall, -⟩⟩ := h.served.length_eq <;> omega
    have hempty : s.toServer = [] := List.eq_nil_of_length_eq_zero (by omega)
    refine ⟨⟨?_, ?_, hheard, ?_, h.toSender, h.served⟩, ?_⟩
    · rintro j d (hj | hj) <;> cases hj
      exact ⟨hi, rfl⟩
    · show s.received + (s.toServer ++ [_]).length + s.lostPackets = i + 1
      rw [List.length_append, List.length_singleton]
      omega
    · intro d hd
      rw [hempty, List.nil_append, List.mem_singleton] at hd
      rw [hd]
      exact congrArg u.datagram hreceived.symm
    · simp only [steps, hsender, sent, SenderPhase.heard]
      omega
  | waiting i data => simp only [Net.next, hsender] at hnext; cases hnext
  | goodbye => simp only [Net.next, hsender] at hnext; cases hnext
  | finished => simp only [Net.next, hsender] at hnext; cases hnext

theorem Running.hear (h : Running u before s) (hnext : s.next u (.hear n) = some t) :
    Running u before t ∧ steps u t = steps u s + 1 := by
  obtain ⟨reply, hreply, hnext⟩ := Option.bind_eq_some_iff.1 hnext
  obtain ⟨sender, hsender, hnext⟩ := Option.bind_eq_some_iff.1 hnext
  cases hnext
  have hmissing := h.served.not_missing (h.toSender reply (List.mem_of_getElem? hreply))
  obtain ⟨hsending, hsent, hheard⟩ :=
    hear_eq hmissing hsender fun i data hw => (h.sending i data (.inr hw)).1
  have hlen := List.length_eraseIdx_add_one (List.getElem?_eq_some_iff.1 hreply).1
  have hcount := h.heard
  refine ⟨⟨hsending, hsent ▸ h.packets, ?_, h.toServer, ?_, h.served⟩, ?_⟩
  · show sender.heard u.total + (s.toSender.eraseIdx n).length + s.lostReplies = s.replies.length
    omega
  · exact fun r hr => h.toSender r (List.eraseIdx_subset hr)
  · simp only [steps]
    omega

theorem Running.receive (h : Running u before s) (hnext : s.next u (.receive n) = some t) :
    Running u before t ∧ steps u t = steps u s + 1 := by
  obtain ⟨datagram, hdatagram, hnext⟩ := Option.bind_eq_some_iff.1 hnext
  obtain ⟨turn, hturn, hnext⟩ := Option.bind_eq_some_iff.1 hnext
  cases hnext
  obtain ⟨hn, -⟩ := List.getElem?_eq_some_iff.1 hdatagram
  have hpackets := h.packets
  obtain ⟨hlt, hone, hlen, haccepting⟩ := h.awaited (by omega)
  obtain rfl := h.toServer datagram (List.mem_of_getElem? hdatagram)
  obtain ⟨server, hreceive, hserver⟩ := haccepting.receive hlt
  obtain rfl := Option.some.inj (hreceive.symm.trans hturn)
  have hreplies : s.replies ++ [replyText u s.received] = (List.range (s.received + 1)).map (replyText u) := by
    rw [List.range_succ, List.map_append, List.map_singleton, ← h.served.replies_eq hlen]
  have herase := List.length_eraseIdx_add_one hn
  refine ⟨⟨h.sending, ?_, ?_, ?_, ?_, ?_⟩, ?_⟩
  · show s.received + 1 + (s.toServer.eraseIdx n).length + s.lostPackets = sent u.total s.sender
    omega
  · have hheard := h.heard
    show s.sender.heard u.total + (s.toSender ++ [_]).length + s.lostReplies = (s.replies ++ [_]).length
    simp only [List.length_append, List.length_singleton]
    omega
  · intro d hd
    have hempty : s.toServer.eraseIdx n = [] := List.eq_nil_of_length_eq_zero (by omega)
    rw [show s.toServer.eraseIdx n = [] from hempty] at hd
    cases hd
  · intro r hr
    rcases List.mem_append.1 hr with hr | hr
    · exact List.mem_append_left _ (h.toSender r hr)
    · exact List.mem_append_right _ hr
  · show Served u before server (s.received + 1) (s.replies ++ [_])
    rw [hreplies]
    exact .accepting hserver hlt
  · simp only [steps, Option.toList_some, List.length_append, List.length_singleton]
    omega

theorem Served.finish {server server' : Server} {goodbye : Bytes} (h : Served u before server k replies)
    (hfinish : server.finish = some (server', goodbye)) : Served u before server' k (replies ++ [goodbye]) := by
  cases h with
  | accepting h hk =>
    obtain ⟨pos, rfl, rfl, phase, files⟩ := h.finish hk hfinish
    exact .finished pos phase files
  | finished _ phase _ =>
    simp only [Server.finish, phase] at hfinish
    cases hfinish

theorem Running.finish (h : Running u before s) (hnext : s.next u .finish = some t) :
    Running u before t ∧ steps u t = steps u s + 1 := by
  obtain ⟨⟨server, goodbye⟩, hfinish, hnext⟩ := Option.bind_eq_some_iff.1 hnext
  cases hnext
  have hheard := h.heard
  refine ⟨⟨h.sending, h.packets, ?_, h.toServer, ?_, h.served.finish hfinish⟩, ?_⟩
  · show s.sender.heard u.total + (s.toSender ++ [goodbye]).length + s.lostReplies = (s.replies ++ [goodbye]).length
    simp only [List.length_append, List.length_singleton]
    omega
  · intro r hr
    rcases List.mem_append.1 hr with hr | hr
    · exact List.mem_append_left _ (h.toSender r hr)
    · exact List.mem_append_right _ hr
  · simp only [steps, List.length_append, List.length_singleton]
    omega

/-- One step of either side, or one loss. -/
theorem Running.step (h : Running u before s) (hnext : s.next u e = some t) :
    Running u before t ∧ steps u t = steps u s + 1 := by
  cases e with
  | send => exact h.send hnext
  | hear n => exact h.hear hnext
  | receive n => exact h.receive hnext
  | finish => exact h.finish hnext
  | losePacket n =>
    simp only [Net.next, Option.ite_none_right_eq_some, Option.some.injEq] at hnext
    obtain ⟨hn, rfl⟩ := hnext
    have hpackets := h.packets
    have herase := List.length_eraseIdx_add_one hn
    refine ⟨⟨h.sending, ?_, h.heard, fun d hd => h.toServer d (List.eraseIdx_subset hd), h.toSender, h.served⟩, ?_⟩
    · show s.received + (s.toServer.eraseIdx n).length + (s.lostPackets + 1) = sent u.total s.sender
      omega
    · simp only [steps]
      omega
  | loseReply n =>
    simp only [Net.next, Option.ite_none_right_eq_some, Option.some.injEq] at hnext
    obtain ⟨hn, rfl⟩ := hnext
    have hheard := h.heard
    have herase := List.length_eraseIdx_add_one hn
    refine ⟨⟨h.sending, h.packets, ?_, h.toServer, fun r hr => h.toSender r (List.eraseIdx_subset hr), h.served⟩, ?_⟩
    · show s.sender.heard u.total + (s.toSender.eraseIdx n).length + (s.lostReplies + 1) = s.replies.length
      omega
    · simp only [steps]
      omega

theorem Net.Begins.running (h : s.Begins u before) : Running u before s ∧ steps u s = 0 := by
  obtain ⟨phase, hnext, hheard, hsending⟩ := nextFragment_heard (Nat.zero_le u.total)
  obtain rfl : phase = s.sender := Option.some.inj (hnext.symm.trans h.sender)
  have hsent : sent u.total s.sender = 0 := by
    have hsender := h.sender
    by_cases hpos : 0 < u.total
    · rw [Upload.nextFragment_of_lt u.count_lt hpos] at hsender
      rw [← Option.some.inj hsender]
      rfl
    · rw [Upload.nextFragment_of_le (by omega)] at hsender
      rw [← Option.some.inj hsender]
      exact Nat.eq_zero_of_not_pos hpos
  refine ⟨⟨hsending, ?_, ?_, ?_, ?_, ?_⟩, ?_⟩
  · rw [h.received, h.toServer, h.lostPackets, hsent]
    rfl
  · rw [hheard, h.toSender, h.lostReplies, h.replies]
    rfl
  · rw [h.toServer]
    exact fun d hd => by cases hd
  · rw [h.toSender]
    exact fun r hr => by cases hr
  · rw [h.received, h.replies]
    exact .accepting (.nothing h.outer h.files) (Nat.zero_le _)
  · rw [steps, hsent, hheard, h.replies, h.lostPackets, h.lostReplies]
    rfl

/-- The server can take a packet that arrives. -/
private theorem Running.exists_receive (h : Running u before s) (hne : 0 < s.toServer.length) :
    ∃ t, s.next u (.receive 0) = some t := by
  have hpackets := h.packets
  obtain ⟨hlt, -, -, haccepting⟩ := h.awaited (by omega)
  obtain ⟨server, hreceive, -⟩ := haccepting.receive hlt
  have hdatagram : s.toServer[0]? = some (u.datagram s.received) := by
    rw [List.getElem?_eq_getElem hne, h.toServer _ (List.getElem_mem hne)]
  simp only [Net.next, hdatagram, hreceive, Option.bind_eq_bind, Option.bind_some]
  exact ⟨_, rfl⟩

/-- A sender that waits can take a reply that arrives. -/
private theorem Running.exists_hear (h : Running u before s) (hne : 0 < s.toSender.length)
    (hwaits : (∃ i data, s.sender = .waiting i data) ∨ s.sender = .goodbye) : ∃ t, s.next u (.hear 0) = some t := by
  have hreply : s.toSender[0]? = some s.toSender[0] := List.getElem?_eq_getElem hne
  have hmissing := h.served.not_missing (h.toSender _ (List.getElem_mem hne))
  rcases hwaits with ⟨i, data, hsender⟩ | hsender
  · have hi := (h.sending i data (.inr hsender)).1
    obtain ⟨phase, hphase, -⟩ := nextFragment_heard (u := u) (Nat.succ_le_of_lt hi)
    simp only [Net.next, hreply, hsender, Plain.hear, hmissing, if_false, hphase, Option.bind_eq_bind, Option.bind_some]
    exact ⟨_, rfl⟩
  · simp only [Net.next, hreply, hsender, Plain.hear, Option.bind_eq_bind, Option.bind_some]
    exact ⟨_, rfl⟩

/-- As long as nothing is lost, one of the two sides can go on. -/
private theorem Running.exists_next (h : Running u before s) (hpos : 0 < u.total) (hname : u.field.length ≤ 228)
    (hlost : s.lostPackets + s.lostReplies = 0) (hdone : s.sender ≠ .finished) :
    ∃ e t, e.loses = false ∧ s.next u e = some t := by
  have hsent := h.packets
  have hheard := h.heard
  by_cases hserver : 0 < s.toServer.length
  · exact ⟨.receive 0, _, rfl, (h.exists_receive hserver).choose_spec⟩
  obtain ⟨hle, hserved⟩ := h.served.length_eq
  cases hphase : s.sender with
  | sending i data => exact ⟨.send, _, rfl, by simp only [Net.next, hphase]; rfl⟩
  | waiting i data =>
    rw [hphase] at hsent hheard
    simp only [sent, SenderPhase.heard] at hsent hheard
    have hreply : 0 < s.toSender.length := by
      rcases hserved with ⟨hlen, -⟩ | ⟨hlen, -, -⟩ <;> omega
    exact ⟨.hear 0, _, rfl, (h.exists_hear hreply (.inl ⟨i, data, hphase⟩)).choose_spec⟩
  | goodbye =>
    rw [hphase] at hsent hheard
    simp only [sent, SenderPhase.heard] at hsent hheard
    rcases hserved with ⟨hlen, haccepting⟩ | ⟨hlen, -, -⟩
    · obtain ⟨server, goodbye, hfinish⟩ := haccepting.finish_of_length (by omega) (by omega) hname
      exact ⟨.finish, _, rfl, by simp only [Net.next, hfinish, Option.bind_eq_bind, Option.bind_some]; rfl⟩
    · exact ⟨.hear 0, _, rfl, (h.exists_hear (by omega) (.inr hphase)).choose_spec⟩
  | finished => exact absurd hphase hdone

/-- Where `deliver` has come to its end, nothing was lost. -/
private theorem Running.of_finished (h : Running u before s) (hdone : s.sender = .finished) :
    s.lostPackets + s.lostReplies = 0 ∧ s.server.files = stored before u.field (u.bytes u.total) := by
  have hsent := h.packets
  have hheard := h.heard
  rw [hdone] at hsent hheard
  simp only [sent, SenderPhase.heard] at hsent hheard
  obtain ⟨hle, ⟨hlen, -⟩ | ⟨hlen, hall, files⟩⟩ := h.served.length_eq
  · omega
  · exact ⟨by omega, files⟩

private theorem Running.steps_le (h : Running u before s) : steps u s ≤ 3 * u.total + 2 := by
  obtain ⟨htotal, -, -⟩ := sent_le h.sending
  have hsent := h.packets
  have hheard := h.heard
  have hle := h.served.length_eq.1
  have hlen : s.replies.length ≤ s.received + 1 := by
    obtain ⟨-, ⟨hlen, -⟩ | ⟨hlen, -, -⟩⟩ := h.served.length_eq <;> omega
  simp only [steps]
  omega

end Running

/-! ### Whole transfers -/

section Runs

variable {u : Upload} {before : Bytes → Option Bytes} {s t : Net} {es : List NetEvent}

theorem Running.run (h : Running u before s) (hrun : runFrom (Net.next u) s es = some t) :
    Running u before t ∧ steps u t = steps u s + es.length := by
  induction es generalizing s with
  | nil =>
    cases hrun
    exact ⟨h, rfl⟩
  | cons e es ih =>
    obtain ⟨mid, hnext, hrun⟩ := Option.bind_eq_some_iff.1 hrun
    obtain ⟨hmid, hone⟩ := h.step hnext
    obtain ⟨hrunning, hsteps⟩ := ih hmid hrun
    exact ⟨hrunning, by rw [hsteps, hone, List.length_cons]; omega⟩

/-- The two counts of what is lost. -/
private theorem lost_next {e : NetEvent} (hnext : s.next u e = some t) :
    t.lostPackets + t.lostReplies = s.lostPackets + s.lostReplies + [e].countP NetEvent.loses := by
  cases e with
  | send =>
    simp only [Net.next] at hnext
    split at hnext <;> cases hnext
    rfl
  | hear n =>
    obtain ⟨_, -, hnext⟩ := Option.bind_eq_some_iff.1 hnext
    obtain ⟨_, -, hnext⟩ := Option.bind_eq_some_iff.1 hnext
    cases hnext
    rfl
  | receive n =>
    obtain ⟨_, -, hnext⟩ := Option.bind_eq_some_iff.1 hnext
    obtain ⟨_, -, hnext⟩ := Option.bind_eq_some_iff.1 hnext
    cases hnext
    rfl
  | finish =>
    obtain ⟨_, -, hnext⟩ := Option.bind_eq_some_iff.1 hnext
    cases hnext
    rfl
  | losePacket n =>
    simp only [Net.next, Option.ite_none_right_eq_some, Option.some.injEq] at hnext
    obtain ⟨-, rfl⟩ := hnext
    exact Nat.add_right_comm _ _ _
  | loseReply n =>
    simp only [Net.next, Option.ite_none_right_eq_some, Option.some.injEq] at hnext
    obtain ⟨-, rfl⟩ := hnext
    rfl

private theorem lost_run (hrun : runFrom (Net.next u) s es = some t) :
    t.lostPackets + t.lostReplies = s.lostPackets + s.lostReplies + es.countP NetEvent.loses := by
  induction es generalizing s with
  | nil =>
    cases hrun
    rfl
  | cons e es ih =>
    obtain ⟨mid, hnext, hrun⟩ := Option.bind_eq_some_iff.1 hrun
    rw [ih hrun, lost_next hnext, Nat.add_assoc, ← List.countP_append, List.singleton_append]

/-- From any state without a loss the transfer can be completed. -/
private theorem Running.exists_finished (h : Running u before s) (hpos : 0 < u.total) (hname : u.field.length ≤ 228)
    (hlost : s.lostPackets + s.lostReplies = 0) :
    ∃ es t, runFrom (Net.next u) s es = some t ∧ t.sender = .finished := by
  -- on the steps that are left
  obtain ⟨k, hk⟩ : ∃ k, steps u s + k = 3 * u.total + 2 := ⟨_, Nat.add_sub_cancel' h.steps_le⟩
  induction k generalizing s with
  | zero =>
    by_contra hnever
    have hdone : s.sender ≠ .finished := fun hdone => hnever ⟨[], s, rfl, hdone⟩
    obtain ⟨e, t, -, hnext⟩ := h.exists_next hpos hname hlost hdone
    obtain ⟨ht, hsteps⟩ := h.step hnext
    have := ht.steps_le
    omega
  | succ k ih =>
    by_cases hdone : s.sender = .finished
    · exact ⟨[], s, rfl, hdone⟩
    obtain ⟨e, mid, hkeeps, hnext⟩ := h.exists_next hpos hname hlost hdone
    obtain ⟨hmid, hsteps⟩ := h.step hnext
    have hmidlost : mid.lostPackets + mid.lostReplies = 0 := by
      rw [lost_next hnext, hlost, List.countP_singleton, hkeeps]
      rfl
    obtain ⟨es, t, hrun, ht⟩ := ih hmid hmidlost (by omega)
    exact ⟨e :: es, t, by rw [runFrom, hnext, Option.bind_some, hrun], ht⟩

/-- No transfer takes more steps than these; where neither side can go on, `deliver` has come to its end exactly when
nothing was lost, and then the server holds the file. -/
theorem transfer_completes_iff (hs : s.Begins u before) (hpos : 0 < u.total) (hname : u.field.length ≤ 228)
    (hrun : runFrom (Net.next u) s es = some t) :
    es.length ≤ 3 * u.total + 2 ∧
      (t.sender = .finished → t.server.files = stored before u.field (u.bytes u.total)) ∧
      ((∀ e, e.loses = false → t.next u e = none) →
        (t.sender = .finished ↔ ∀ e ∈ es, e.loses = false)) := by
  obtain ⟨hrunning, hzero⟩ := hs.running
  obtain ⟨ht, hsteps⟩ := hrunning.run hrun
  have hlost : t.lostPackets + t.lostReplies = es.countP NetEvent.loses := by
    rw [lost_run hrun, hs.lostPackets, hs.lostReplies, Nat.zero_add]
  have hnone : t.lostPackets + t.lostReplies = 0 ↔ ∀ e ∈ es, e.loses = false := by
    rw [hlost, List.countP_eq_zero]
    exact forall₂_congr fun e _ => by rw [Bool.not_eq_true]
  refine ⟨?_, fun hdone => (ht.of_finished hdone).2, fun hmax => ⟨fun hdone => hnone.1 (ht.of_finished hdone).1, ?_⟩⟩
  · have hle := ht.steps_le
    omega
  · intro hkept
    by_contra hdone
    obtain ⟨e, t', hkeeps, hnext⟩ := ht.exists_next hpos hname (hnone.2 hkept) hdone
    rw [hmax e hkeeps] at hnext
    cases hnext

/-- The transfer of `letters` to a server without files. -/
private theorem exists_letters : ∃ s es t, s.Begins letters (fun _ => none) ∧ runFrom (Net.next letters) s es = some t ∧
    t.sender = .finished := by
  let s : Net := ⟨.sending 0 (letters.datagram 0), ⟨.outer, 0, fun _ => none⟩, [], [], 0, [], 0, 0⟩
  have hs : s.Begins letters (fun _ => none) :=
    ⟨Upload.nextFragment_of_lt letters.count_lt Nat.two_pos, rfl, rfl, rfl, rfl, rfl, rfl, rfl, rfl⟩
  obtain ⟨es, t, hrun, hdone⟩ := hs.running.1.exists_finished Nat.two_pos (by decide) rfl
  exact ⟨s, es, t, hs, hrun, hdone⟩

theorem transfer_completes_iff_letters : ∃ s es t, s.Begins letters (fun _ => none) ∧
    runFrom (Net.next letters) s es = some t ∧ t.sender = .finished ∧ es.length ≤ 8 ∧
    t.server.files letters.name.bytes = some letters.file ∧
    ((∀ e, e.loses = false → t.next letters e = none) → ∀ e ∈ es, e.loses = false) := by
  obtain ⟨s, es, t, hs, hrun, hdone⟩ := exists_letters
  obtain ⟨hlen, hfiles, hiff⟩ := transfer_completes_iff hs Nat.two_pos (by decide) hrun
  have hfile : t.server.files letters.name.bytes = some letters.file := by
    rw [hfiles hdone, Upload.bytes_total (by decide), Upload.field_of_colonFree (by decide), stored_self, splice_zero]
    simp
  exact ⟨s, es, t, hs, hrun, hdone, hlen, hfile, fun hmax => (hiff hmax).1 hdone⟩

/-- Between any two turns the replies of the server number the packets that it has received, and its file holds them. -/
theorem replies_truthful (hr : Reachable (transfer u before) s) :
    s.received ≤ u.total ∧ (s.received = 0 → s.server.files = before) ∧
      (0 < s.received → s.server.files = stored before u.field (u.bytes s.received)) ∧
      (s.replies = (List.range s.received).map (replyText u) ∨
        s.received = u.total ∧ s.replies = (List.range u.total).map (replyText u) ++ [goodbyeText u]) := by
  have hserved : Served u before s.server s.received s.replies :=
    (hr.invariant (fun s hs => hs.running.1) fun s e t _ hs hnext => (hs.step hnext).1).served
  generalize s.received = k at hserved ⊢
  generalize s.replies = replies at hserved ⊢
  cases hserved with
  | accepting h hk =>
    refine ⟨hk, ?_, ?_, Or.inl rfl⟩
    · rintro rfl
      cases h with
      | nothing _ files => exact files
      | packets pos => omega
    · intro hpos
      cases h with
      | nothing => omega
      | packets _ _ _ _ files => exact files
  | finished pos phase files => exact ⟨le_rfl, fun hzero => absurd hzero pos.ne', fun _ => files, Or.inr ⟨rfl, rfl⟩⟩

theorem replies_truthful_letters : ∃ s, Reachable (transfer letters fun _ => none) s ∧ s.sender = .finished ∧
    s.received ≤ 2 ∧ (s.replies = (List.range s.received).map (replyText letters) ∨
      s.received = 2 ∧ s.replies = [replyText letters 0, replyText letters 1, goodbyeText letters]) := by
  obtain ⟨s, es, t, hs, hrun, hdone⟩ := exists_letters
  have hr : Reachable (transfer letters fun _ => none) t := .runFrom (fun _ _ _ h => h) (.init hs) hrun
  obtain ⟨hle, -, -, hreplies⟩ := replies_truthful hr
  exact ⟨t, hr, hdone, hle, hreplies⟩

end Runs

end Plain

end FileTransfer
