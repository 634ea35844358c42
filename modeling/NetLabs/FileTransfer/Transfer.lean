import NetLabs.FileTransfer.Packet
import NetLabs.Lib.Double
import NetLabs.Lib.Transition

/-!
# Sending a file (`deliver/deliver.c`, `server/server.c`)

One transfer of `deliver`, from the first `read` to the goodbye message, its server, and the datagrams between them.
The channels are lists from which any datagram may be delivered next or lost, so a packet or an acknowledgement is late
as long as it stays there.  The timer fires when it likes; what it is set to is left out, and so are printing and the
system calls that fail.

The last three fields of `Net` are history: the code does not have them.
-/

namespace FileTransfer

open CText Transition

/-! ### deliver -/

/-- `int total_frag = ceil((double) size/file_frag_size)`. -/
def totalFrag (size : Nat) : Option Nat :=
  let count := ⌈Double.round (Double.round size / fileFragSize)⌉.toNat
  if count < 2 ^ 31 then some count else none

/-- What `deliver` sends: the file and its name, and the count of fragments. -/
structure Upload where
  file : Bytes
  name : CStr nameLength
  total : Nat
  counted : totalFrag file.length = some total

/-- The loops of `deliver`, with the `data_size` bytes of `data`. -/
inductive SenderPhase
  | sending (i : Nat) (data : Bytes)
  | waiting (i : Nat) (data : Bytes)
  | goodbye
  | finished
  deriving DecidableEq

namespace Upload

variable (u : Upload)

/-- What `read` number `i` puts into `buffer`. -/
def fragment (i : Nat) : Bytes := (u.file.drop (fileFragSize * i)).take fileFragSize

/-- The head of the loop over the fragments. -/
def nextFragment (i : Nat) : Option SenderPhase :=
  if i < u.total then
    let buffer := u.fragment i
    if buffer = [] then some .goodbye
    else do
      let sender ← writePackets (UInt32.ofNat u.total) (UInt32.ofNat (i + 1)) (UInt32.ofNat buffer.length) u.name buffer
      let (data, dataSize) ← convertToString sender (CArray.zero sendingBufferSize) u.name
      some (.sending i (data.bytes.take dataSize))
  else some .goodbye

/-- What follows the `recvfrom` of either loop: neither looks at what it received. -/
def hear : SenderPhase → Option SenderPhase
  | .waiting i _ => u.nextFragment (i + 1)
  | .goodbye => some .finished
  | _ => none

end Upload

/-! ### The server -/

structure Fd where
  path : Bytes
  offset : Nat

/-- Where `main` is: at the `recvfrom` of either loop, behind the inner loop, or behind both. -/
inductive ServerPhase
  | outer
  | inner (i : Nat) (receiver : Packet) (name : CArray nameLength) (fd : Fd)
  | ending (name : CArray nameLength)
  | stopped

structure Server where
  phase : ServerPhase
  totalFrag : UInt32
  files : Bytes → Option Bytes

/-- What a datagram makes the server do. -/
structure Turn where
  server : Server
  replies : List Bytes
  wrote : Option Bytes

namespace Server

/-- `recvfrom` into a cleared buffer. -/
def recvFrom (datagram : Bytes) : CArray sendingBufferSize :=
  (CArray.zero sendingBufferSize).write 0 (datagram.take sendingBufferSize) (by simp)

/-- `open(path, O_CREAT | O_RDWR, S_IRWXU)`; the file keeps its contents. -/
def openFile (files : Bytes → Option Bytes) (path : Bytes) : (Bytes → Option Bytes) × Fd :=
  (fun p => if p = path then some ((files p).getD []) else files p, ⟨path, 0⟩)

/-- `write(fd, data, size)`: it overwrites what is behind the offset and makes the file longer at its end. -/
def write (files : Bytes → Option Bytes) (fd : Fd) (data : Bytes) : (Bytes → Option Bytes) × Fd :=
  (fun p => if p = fd.path then (files p).map fun old => splice old fd.offset data else files p,
    ⟨fd.path, fd.offset + data.length⟩)

/-- The head of the loop over the fragments. -/
def loop (totalFrag : UInt32) (i : Nat) (receiver : Packet) (name : CArray nameLength) (fd : Fd) : ServerPhase :=
  if i < totalFrag.toNat then .inner i receiver name fd else .ending name

/-- What `sendto(socketfd, messages, strlen(messages) + 1, ..)` sends. -/
def message {n : Nat} (messages : CArray n) : Bytes := cstr messages.bytes ++ [0]

/-- The `recvfrom` of either loop and what follows it; `randNum` is `(rand() % 100) + 1`. -/
def receive (s : Server) (datagram : Bytes) (randNum : Nat) : Option Turn :=
  match s.phase with
  | .outer =>
    let buffer := recvFrom datagram
    if 5 < randNum then do
      -- the acknowledgement goes out before the packet is read, with the count of the last transfer
      let messages ← ackToBuffer (fillTheAck s.totalFrag 1 recevd) (CArray.zero nameLength)
      if cstr buffer.bytes = ascii "done\n" then some ⟨{ s with phase := .stopped }, [message messages], none⟩
      else do
        let (receiver, name) ← bufferToPacket (CArray.zero 12) Packet.zero (CArray.zero nameLength) buffer.bytes
        let (files, fd) := openFile s.files receiver.filename
        let data := receiver.filedata.bytes.take receiver.size.toNat
        let (files, fd) := write files fd data
        some ⟨⟨loop receiver.totalFrag 1 receiver name fd, receiver.totalFrag, files⟩, [message messages], some data⟩
    else some ⟨s, [], none⟩
  | .inner i receiver name fd =>
    let buffer := recvFrom datagram
    if 5 < randNum then do
      let messages ← ackToBuffer (fillTheAck s.totalFrag (UInt32.ofNat (i + 1)) recevd) (CArray.zero nameLength)
      let (receiver, name) ← bufferToPacket (CArray.zero 12) receiver name buffer.bytes
      let data := receiver.filedata.bytes.take receiver.size.toNat
      let (files, fd) := write s.files fd data
      some ⟨⟨loop s.totalFrag (i + 1) receiver name fd, s.totalFrag, files⟩, [message messages], some data⟩
    else some ⟨s, [], none⟩ -- `i--` takes the `i++` back
  | _ => none

/-- What follows the inner loop. -/
def finish (s : Server) : Option (Server × Bytes) :=
  match s.phase with
  | .ending name => do
    let endOfFile ← (CArray.zero 256).strcpy
      (ascii "End of File Transfer for " ++ cstr name.bytes ++ ascii ".\n" ++ [0])
    some ({ s with phase := .outer }, message endOfFile)
  | _ => none

end Server

/-! ### The network -/

structure Net where
  sender : SenderPhase
  server : Server
  toServer : List Bytes
  toSender : List Bytes
  /-- The bytes that the server has written. -/
  written : Bytes
  /-- How many packets the server has not dropped. -/
  accepted : Nat
  /-- Whether the server has dropped a packet since the last one was sent. -/
  dropped : Bool

/-- A step of one side, or the loss of a datagram; `n` picks the datagram. -/
inductive NetEvent
  | send
  | timeout
  | hear (n : Nat)
  | receive (n randNum : Nat)
  | finish
  | losePacket (n : Nat)
  | loseReply (n : Nat)

namespace Net

def next (u : Upload) (s : Net) : NetEvent → Option Net
  | .send => match s.sender with
    | .sending i data => some { s with sender := .waiting i data, toServer := s.toServer ++ [data], dropped := false }
    | _ => none
  | .timeout => match s.sender with
    | .waiting i data => some { s with sender := .sending i data }
    | .goodbye => some s
    | _ => none
  | .hear n => do
    let _ ← s.toSender[n]?
    let sender ← u.hear s.sender
    some { s with sender := sender, toSender := s.toSender.eraseIdx n }
  | .receive n randNum => do
    let datagram ← s.toServer[n]?
    let turn ← s.server.receive datagram randNum
    some { s with
      server := turn.server
      toServer := s.toServer.eraseIdx n
      toSender := s.toSender ++ turn.replies
      written := s.written ++ turn.wrote.getD []
      accepted := s.accepted + turn.wrote.toList.length
      dropped := s.dropped || turn.wrote.isNone }
  | .finish => do
    let (server, goodbye) ← s.server.finish
    some { s with server := server, toSender := s.toSender ++ [goodbye] }
  | .losePacket n => if n < s.toServer.length then some { s with toServer := s.toServer.eraseIdx n } else none
  | .loseReply n => if n < s.toSender.length then some { s with toSender := s.toSender.eraseIdx n } else none

section Next

variable {u : Upload} {s t : Net} {n randNum : Nat}

theorem next_hear_iff : s.next u (.hear n) = some t ↔
    ∃ reply phase, s.toSender[n]? = some reply ∧ u.hear s.sender = some phase ∧
      t = { s with sender := phase, toSender := s.toSender.eraseIdx n } := by
  simp only [next, Option.bind_eq_bind, Option.bind_eq_some_iff, Option.some.injEq]
  constructor
  · rintro ⟨reply, hreply, phase, hphase, rfl⟩
    exact ⟨reply, phase, hreply, hphase, rfl⟩
  · rintro ⟨reply, phase, hreply, hphase, rfl⟩
    exact ⟨reply, hreply, phase, hphase, rfl⟩

theorem next_receive_iff : s.next u (.receive n randNum) = some t ↔
    ∃ datagram turn, s.toServer[n]? = some datagram ∧ s.server.receive datagram randNum = some turn ∧
      t = { s with
        server := turn.server
        toServer := s.toServer.eraseIdx n
        toSender := s.toSender ++ turn.replies
        written := s.written ++ turn.wrote.getD []
        accepted := s.accepted + turn.wrote.toList.length
        dropped := s.dropped || turn.wrote.isNone } := by
  simp only [next, Option.bind_eq_bind, Option.bind_eq_some_iff, Option.some.injEq]
  constructor
  · rintro ⟨datagram, hdatagram, turn, hturn, rfl⟩
    exact ⟨datagram, turn, hdatagram, hturn, rfl⟩
  · rintro ⟨datagram, turn, hdatagram, hturn, rfl⟩
    exact ⟨datagram, hdatagram, turn, hturn, rfl⟩

theorem next_finish_iff : s.next u .finish = some t ↔
    ∃ server goodbye, s.server.finish = some (server, goodbye) ∧
      t = { s with server := server, toSender := s.toSender ++ [goodbye] } := by
  simp only [next, Option.bind_eq_bind, Option.bind_eq_some_iff, Option.some.injEq, Prod.exists]
  constructor
  · rintro ⟨server, goodbye, hfinish, rfl⟩
    exact ⟨server, goodbye, hfinish, rfl⟩
  · rintro ⟨server, goodbye, hfinish, rfl⟩
    exact ⟨server, goodbye, hfinish, rfl⟩

end Next

/-- `deliver` starts to send; the server may have served other transfers before. -/
structure Begins (u : Upload) (s : Net) : Prop where
  sender : u.nextFragment 0 = some s.sender
  outer : s.server.phase = .outer
  toServer : s.toServer = []
  toSender : s.toSender = []
  written : s.written = []
  accepted : s.accepted = 0
  dropped : s.dropped = false

end Net

/-- The runs of one transfer. -/
def transfer (u : Upload) : System Net NetEvent where
  init s := s.Begins u
  step s e t := s.next u e = some t

/-! ### Fragments -/

private theorem length_fragment_le (u : Upload) (i : Nat) : (u.fragment i).length ≤ fileFragSize := by
  rw [Upload.fragment, List.length_take]
  exact Nat.min_le_left _ _

/-- The fragments one after the other are the file. -/
theorem flatMap_fragment (u : Upload) (k : Nat) :
    (List.range k).flatMap u.fragment = u.file.take (fileFragSize * k) := by
  induction k with
  | zero => rfl
  | succ k ih =>
    rw [List.range_succ, List.flatMap_append, ih, List.flatMap_singleton, Nat.mul_succ, List.take_add]
    rfl

/-- The code's count of the fragments is the exact one. -/
theorem totalFrag_eq {size : Nat} (h : ⌈(size : ℚ) / fileFragSize⌉ < 2 ^ 31) :
    totalFrag size = some ⌈(size : ℚ) / fileFragSize⌉.toNat := by
  have hsize : size < fileFragSize * 2 ^ 31 := by
    have hle := (Int.le_ceil ((size : ℚ) / fileFragSize)).trans_lt (Int.cast_lt.2 h)
    rw [div_lt_iff₀ (by norm_num)] at hle
    push_cast at hle
    have : (size : ℚ) < (fileFragSize * 2 ^ 31 : ℕ) := by
      push_cast
      linarith
    exact_mod_cast this
  have hexact : Double.round (size : ℚ) = size := Double.round_natCast (hsize.trans (by norm_num))
  have hceil := Double.ceil_round_div (by norm_num : 0 < fileFragSize) hsize (by norm_num)
  have hnat : ⌈(size : ℚ) / fileFragSize⌉.toNat < 2 ^ 31 := by omega
  simp only [totalFrag, hexact, hceil, hnat, if_true]

/-- A file that is counted at all has fewer than `2 ^ 31` fragments. -/
private theorem totalFrag_lt {size count : Nat} (h : totalFrag size = some count) :
    ⌈(size : ℚ) / fileFragSize⌉ < 2 ^ 31 := by
  by_contra hge
  simp only [totalFrag, Option.ite_none_right_eq_some] at h
  obtain ⟨hlt, -⟩ := h
  by_cases hsize : size < fileFragSize * 2 ^ 43
  · have hexact : Double.round (size : ℚ) = size := Double.round_natCast (hsize.trans (by norm_num))
    rw [hexact, Double.ceil_round_div (by norm_num : 0 < fileFragSize) hsize (by norm_num)] at hlt
    omega
  · -- a count that is rounded is far too large
    have hbig : (fileFragSize * 2 ^ 43 : ℚ) ≤ size := by exact_mod_cast Nat.not_lt.1 hsize
    have hpos : (0 : ℚ) < size := lt_of_lt_of_le (by norm_num) hbig
    have hround := Double.half_le_round hpos
    have hquot : (2 ^ 42 : ℚ) ≤ Double.round (size : ℚ) / fileFragSize := by
      rw [le_div_iff₀ (by norm_num)]
      push_cast at hbig ⊢
      linarith
    have hceil := (Double.half_le_round (lt_of_lt_of_le (by norm_num) hquot)).trans (Int.le_ceil _)
    have hlow : (2 ^ 41 : ℤ) ≤ ⌈Double.round (Double.round (size : ℚ) / fileFragSize)⌉ := by
      have : (2 ^ 41 : ℚ) ≤ ⌈Double.round (Double.round (size : ℚ) / fileFragSize)⌉ := by linarith
      exact_mod_cast this
    omega

namespace Upload

theorem count_lt (u : Upload) : ⌈(u.file.length : ℚ) / fileFragSize⌉ < 2 ^ 31 := totalFrag_lt u.counted

variable {u : Upload} {i : Nat}

theorem total_eq (hcount : ⌈(u.file.length : ℚ) / fileFragSize⌉ < 2 ^ 31) :
    (u.total : ℤ) = ⌈(u.file.length : ℚ) / fileFragSize⌉ := by
  have htotal := u.counted
  rw [totalFrag_eq hcount, Option.some.injEq] at htotal
  have hpos : 0 ≤ ⌈(u.file.length : ℚ) / fileFragSize⌉ := Int.ceil_nonneg (by positivity)
  omega

/-- Fragment `i` is sent when the file has bytes for it. -/
theorem lt_total (hcount : ⌈(u.file.length : ℚ) / fileFragSize⌉ < 2 ^ 31) :
    i < u.total ↔ fileFragSize * i < u.file.length := by
  rw [← @Nat.cast_lt ℤ, total_eq hcount, Int.lt_ceil, lt_div_iff₀ (by norm_num), mul_comm]
  norm_cast

theorem total_lt (hcount : ⌈(u.file.length : ℚ) / fileFragSize⌉ < 2 ^ 31) : u.total < 2 ^ 31 := by
  have := total_eq hcount
  omega

private theorem fragment_ne_nil (hcount : ⌈(u.file.length : ℚ) / fileFragSize⌉ < 2 ^ 31) (hi : i < u.total) :
    u.fragment i ≠ [] := by
  have hlen := (lt_total hcount).1 hi
  intro hnil
  have := congrArg List.length hnil
  simp only [fragment, List.length_take, List.length_drop, List.length_nil, fileFragSize] at this hlen
  omega

theorem take_total (hcount : ⌈(u.file.length : ℚ) / fileFragSize⌉ < 2 ^ 31) :
    u.file.take (fileFragSize * u.total) = u.file := by
  have : ¬ u.total < u.total := lt_irrefl _
  rw [lt_total hcount, not_lt] at this
  exact List.take_of_length_le this

/-- The bytes of packet `i`. -/
def datagram (u : Upload) (i : Nat) : Bytes :=
  packetHeader (UInt32.ofNat u.total) (UInt32.ofNat (i + 1)) (UInt32.ofNat (u.fragment i).length) u.name.bytes ++
    u.fragment i

private theorem size_fragment (u : Upload) (i : Nat) :
    (UInt32.ofNat (u.fragment i).length).toNat = (u.fragment i).length := by
  have : (u.fragment i).length ≤ 1000 := length_fragment_le u i
  rw [UInt32.toNat_ofNat']
  omega

/-- The loop sends the packets one after the other. -/
theorem nextFragment_of_lt (hcount : ⌈(u.file.length : ℚ) / fileFragSize⌉ < 2 ^ 31) (hi : i < u.total) :
    u.nextFragment i = some (.sending i (u.datagram i)) := by
  have hsize := u.size_fragment i
  have hlen := length_fragment_le u i
  have hcopy : copyLoop id (u.fragment i).length (u.fragment i) 0 (CArray.zero fileFragSize) = _ :=
    copyLoop_id le_rfl (by omega)
  obtain ⟨out, count, hconv, hbytes⟩ := @convertToString_eq u.name ⟨UInt32.ofNat u.total, UInt32.ofNat (i + 1),
    UInt32.ofNat (u.fragment i).length, u.name.bytes, _⟩ (CArray.zero sendingBufferSize) (by rw [hsize]; exact hlen)
  simp only [nextFragment, hi, if_true, fragment_ne_nil hcount hi, if_false, writePackets, hsize, hcopy,
    Option.bind_eq_bind, Option.bind_some]
  rw [hconv, Option.bind_some]
  simp only [hbytes, hsize, datagram, List.take_length, CArray.bytes_write_zero, List.take_left']

theorem nextFragment_of_le (hi : u.total ≤ i) : u.nextFragment i = some .goodbye := by
  rw [nextFragment, if_neg (by omega)]

end Upload

/-! ### Reading a packet -/

section Reading

variable {u : Upload} {i : Nat}

/-- A datagram fits the buffer. -/
theorem take_datagram (u : Upload) (i : Nat) : (u.datagram i).take sendingBufferSize = u.datagram i := by
  have hhead := length_packetHeader_le (UInt32.ofNat u.total) (UInt32.ofNat (i + 1))
    (UInt32.ofNat (u.fragment i).length) u.name
  have hfrag : (u.fragment i).length ≤ 1000 := length_fragment_le u i
  refine List.take_of_length_le ?_
  show _ ≤ 2000
  rw [Upload.datagram, List.length_append]
  omega

private theorem recvFrom_datagram (u : Upload) (i : Nat) :
    ∃ rest, (Server.recvFrom (u.datagram i)).bytes =
      packetHeader (UInt32.ofNat u.total) (UInt32.ofNat (i + 1)) (UInt32.ofNat (u.fragment i).length) u.name.bytes ++
        (u.fragment i ++ rest) := by
  refine ⟨(CArray.zero sendingBufferSize).bytes.drop (u.datagram i).length, ?_⟩
  rw [Server.recvFrom, CArray.bytes_write_zero, take_datagram, ← List.append_assoc]
  rfl

/-- A datagram of the sender is not the end of the session. -/
theorem recvFrom_ne_done (u : Upload) (i : Nat) : cstr (Server.recvFrom (u.datagram i)).bytes ≠ ascii "done\n" := by
  obtain ⟨rest, hrecv⟩ := recvFrom_datagram u i
  have hnul := nul_not_mem_packetHeader (UInt32.ofNat u.total) (UInt32.ofNat (i + 1))
    (UInt32.ofNat (u.fragment i).length) u.name
  have hmem : colon ∈ cstr (Server.recvFrom (u.datagram i)).bytes := by
    rw [hrecv, cstr, List.takeWhile_append_of_pos fun b hb => by simpa using ne_of_mem_of_not_mem hb hnul]
    exact List.mem_append_left _ (by simp [packetHeader])
  intro hdone
  rw [hdone] at hmem
  exact absurd hmem (by decide)

namespace Upload

/-- What the server takes for the name: the part before the first colon. -/
def field (u : Upload) : Bytes := u.name.bytes.takeWhile (· ≠ colon)

/-- What stands before the data bytes then: the rest of the name, with its colon. -/
def tail (u : Upload) : Bytes := (u.name.bytes ++ [colon]).drop (u.field.length + 1)

/-- What the server takes for the data bytes of packet `i`. -/
def received (u : Upload) (i : Nat) : Bytes := (u.tail ++ u.fragment i).take (u.fragment i).length

theorem colon_not_mem_field (u : Upload) : colon ∉ u.field := by
  intro hmem
  exact absurd (List.mem_takeWhile_imp hmem) (by decide)

theorem nul_not_mem_field (u : Upload) : (0 : Byte) ∉ u.field :=
  fun hmem => u.name.nulFree ((List.takeWhile_sublist _).subset hmem)

theorem name_eq (u : Upload) : u.name.bytes ++ [colon] = u.field ++ colon :: u.tail := by
  have hsplit : u.field ++ u.name.bytes.dropWhile (· ≠ colon) = u.name.bytes := List.takeWhile_append_dropWhile
  have hhead : ∃ rest, u.name.bytes.dropWhile (· ≠ colon) ++ [colon] = colon :: rest := by
    cases hdrop : u.name.bytes.dropWhile (· ≠ colon) with
    | nil => exact ⟨[], rfl⟩
    | cons b rest =>
      have hb := List.head?_dropWhile_not (· ≠ colon) u.name.bytes
      rw [hdrop] at hb
      obtain rfl : b = colon := by simpa using hb
      exact ⟨rest ++ [colon], rfl⟩
  obtain ⟨rest, hrest⟩ := hhead
  have hwhole : u.name.bytes ++ [colon] = u.field ++ colon :: rest := by
    rw [← hrest, ← List.append_assoc, hsplit]
  have htail : u.tail = rest := by
    rw [tail, hwhole, ← List.drop_drop, List.drop_left]
    rfl
  rw [htail, hwhole]

theorem field_of_colonFree {u : Upload} (hcolon : colon ∉ u.name.bytes) : u.field = u.name.bytes := by
  rw [field, List.takeWhile_eq_self_iff]
  intro b hb
  simpa using ne_of_mem_of_not_mem hb hcolon

theorem received_of_colonFree {u : Upload} (hcolon : colon ∉ u.name.bytes) (i : Nat) : u.received i = u.fragment i := by
  have htail : u.tail = [] := by
    rw [tail, field_of_colonFree hcolon]
    simp
  rw [received, htail, List.nil_append, List.take_length]

end Upload

/-- What the server reads in packet `i`, whatever the name. -/
structure Received (u : Upload) (i : Nat) (receiver : Packet) (name : CArray nameLength) : Prop where
  totalFrag : receiver.totalFrag = UInt32.ofNat u.total
  fragNo : receiver.fragNo = UInt32.ofNat (i + 1)
  filename : receiver.filename = u.field
  data : receiver.filedata.bytes.take receiver.size.toNat = u.received i
  name : cstr name.bytes = u.field

/-- What stands behind the packet in the buffer does not matter. -/
theorem bufferToPacket_datagram (u : Upload) (i : Nat) (content : CArray 12) (p : Packet) (name : CArray nameLength)
    (rest : Bytes) :
    ∃ receiver name', bufferToPacket content p name (u.datagram i ++ rest) = some (receiver, name') ∧
      Received u i receiver name' := by
  have hsize := u.size_fragment i
  have hfield : cstr u.field = u.field := cstr_of_nulFree u.nul_not_mem_field
  have hroom : (UInt32.ofNat (u.fragment i).length).toNat ≤ (u.tail ++ (u.fragment i ++ rest)).length := by
    rw [hsize, List.length_append, List.length_append]
    omega
  rw [Upload.datagram, List.append_assoc,
    bufferToPacket_fields content p name (fields_header u.name_eq u.colon_not_mem_field _)
    (by rw [atoi_printD, hsize]; exact length_fragment_le u i) (by rw [atoi_printD]; exact hroom)]
  refine ⟨_, _, rfl, atoi_printD _, atoi_printD _, hfield, ?_, ?_⟩
  · have hlen : (u.fragment i).length ≤ (u.tail ++ u.fragment i).length := by
      rw [List.length_append]
      omega
    have hreceived : (u.tail ++ (u.fragment i ++ rest)).take (u.fragment i).length = u.received i := by
      rw [← List.append_assoc, List.take_append_of_le_length hlen, Upload.received]
    have hcount : (u.received i).length = (u.fragment i).length := by
      rw [Upload.received, List.length_take, Nat.min_eq_left hlen]
    simp only [atoi_printD, hsize, CArray.bytes_write_zero, hreceived]
    rw [List.take_left' hcount]
  · rw [cstr_write_nul, hfield]

theorem bufferToPacket_received (u : Upload) (i : Nat) (content : CArray 12) (p : Packet) (name : CArray nameLength) :
    ∃ receiver name', bufferToPacket content p name (Server.recvFrom (u.datagram i)).bytes = some (receiver, name') ∧
      Received u i receiver name' := by
  obtain ⟨rest, hrecv⟩ := recvFrom_datagram u i
  rw [hrecv, ← List.append_assoc]
  exact bufferToPacket_datagram u i content p name rest

/-- Two packets of a file differ in their numbers. -/
theorem Upload.datagram_injective {j : Nat} (u : Upload) (hi : i + 1 < 2 ^ 32) (hj : j + 1 < 2 ^ 32)
    (h : u.datagram i = u.datagram j) : i = j := by
  obtain ⟨r, name, hread, hr⟩ := bufferToPacket_received u i (CArray.zero 12) Packet.zero (CArray.zero nameLength)
  obtain ⟨r', name', hread', hr'⟩ := bufferToPacket_received u j (CArray.zero 12) Packet.zero (CArray.zero nameLength)
  rw [h, hread', Option.some.injEq, Prod.mk.injEq] at hread
  have hno := congrArg UInt32.toNat (hr'.fragNo.symm.trans (congrArg Packet.fragNo hread.1 ▸ hr.fragNo))
  rw [UInt32.toNat_ofNat', UInt32.toNat_ofNat', Nat.mod_eq_of_lt hj, Nat.mod_eq_of_lt hi] at hno
  omega

end Reading

/-! ### What a datagram does to the server -/

namespace Server

/-- Where the server is in a transfer of which it has accepted `k` packets. -/
def At (u : Upload) (s : Server) (k : Nat) : Prop :=
  (s.phase = .outer ∧ (k = 0 ∨ k = u.total ∧ s.totalFrag = UInt32.ofNat u.total)) ∨
  (0 < k ∧ s.totalFrag = UInt32.ofNat u.total ∧
    ∃ receiver name fd, cstr name.bytes = u.name.bytes ∧ s.phase = loop s.totalFrag k receiver name fd)

variable {u : Upload} {s : Server} {k i randNum : Nat} {turn : Turn}

theorem receive_dropped {datagram : Bytes} (hdrop : ¬ 5 < randNum) (h : s.receive datagram randNum = some turn) :
    turn = ⟨s, [], none⟩ := by
  cases hphase : s.phase with
  | outer =>
    simp only [receive, hphase, hdrop, if_false, Option.some.injEq] at h
    exact h.symm
  | inner k receiver name fd =>
    simp only [receive, hphase, hdrop, if_false, Option.some.injEq] at h
    exact h.symm
  | ending name =>
    simp only [receive, hphase] at h
    cases h
  | stopped =>
    simp only [receive, hphase] at h
    cases h

/-- The acknowledgement that goes out. -/
theorem ackToBuffer_message (p : AckPacket) : ∃ messages, ackToBuffer p (CArray.zero nameLength) = some messages ∧
    message messages = ackText p ++ [0] := by
  obtain ⟨messages, hack, htext⟩ := ackToBuffer_eq p (CArray.zero nameLength)
  exact ⟨messages, hack, by rw [message, htext]⟩

/-- The first packet, behind the `recvfrom` of the outer loop. -/
theorem receive_outer (u : Upload) (i : Nat) (hphase : s.phase = .outer) (hkeep : 5 < randNum) :
    ∃ receiver name, Received u i receiver name ∧
      let opened := openFile s.files u.field
      let wrote := write opened.1 opened.2 (u.received i)
      s.receive (u.datagram i) randNum =
        some ⟨⟨loop receiver.totalFrag 1 receiver name wrote.2, receiver.totalFrag, wrote.1⟩,
          [ackText (fillTheAck s.totalFrag 1 recevd) ++ [0]], some (u.received i)⟩ := by
  obtain ⟨messages, hack, hmessage⟩ := ackToBuffer_message (fillTheAck s.totalFrag 1 recevd)
  obtain ⟨receiver, name, hread, hr⟩ := bufferToPacket_received u i (CArray.zero 12) Packet.zero (CArray.zero nameLength)
  refine ⟨receiver, name, hr, ?_⟩
  simp only [receive, hphase, hkeep, if_true, hack, recvFrom_ne_done, if_false, hread, hr.data, hr.filename, hmessage,
    Option.bind_eq_bind, Option.bind_some]

/-- The other packets. -/
theorem receive_inner (u : Upload) (i : Nat) {receiver : Packet} {name : CArray nameLength} {fd : Fd}
    (hphase : s.phase = .inner k receiver name fd) (hkeep : 5 < randNum) :
    ∃ receiver' name', Received u i receiver' name' ∧
      let wrote := write s.files fd (u.received i)
      s.receive (u.datagram i) randNum =
        some ⟨⟨loop s.totalFrag (k + 1) receiver' name' wrote.2, s.totalFrag, wrote.1⟩,
          [ackText (fillTheAck s.totalFrag (UInt32.ofNat (k + 1)) recevd) ++ [0]], some (u.received i)⟩ := by
  obtain ⟨messages, hack, hmessage⟩ := ackToBuffer_message (fillTheAck s.totalFrag (UInt32.ofNat (k + 1)) recevd)
  obtain ⟨receiver', name', hread, hr⟩ := bufferToPacket_received u i (CArray.zero 12) receiver name
  refine ⟨receiver', name', hr, ?_⟩
  simp only [receive, hphase, hkeep, if_true, hack, hread, hr.data, hmessage, Option.bind_eq_bind, Option.bind_some]

/-- A packet that is not dropped is one more fragment, whichever it is. -/
theorem At.receive (hat : s.At u k) (hk : k < u.total) (htotal : u.total < 2 ^ 31) (hcolon : colon ∉ u.name.bytes)
    (hkeep : 5 < randNum) :
    ∃ server reply, s.receive (u.datagram i) randNum = some ⟨server, [reply], some (u.fragment i)⟩ ∧
      server.At u (k + 1) := by
  have hfield := Upload.field_of_colonFree hcolon
  rcases hat with ⟨hphase, hk'⟩ | ⟨hpos, hcount, receiver, name, fd, hname, hphase⟩
  · obtain rfl : k = 0 := by omega
    obtain ⟨receiver, name, hr, h⟩ := receive_outer u i hphase hkeep
    rw [Upload.received_of_colonFree hcolon] at h
    exact ⟨_, _, h, Or.inr ⟨Nat.one_pos, hr.totalFrag, receiver, name, _, hr.name.trans hfield, rfl⟩⟩
  · have hin : k < s.totalFrag.toNat := by
      rw [hcount, UInt32.toNat_ofNat']
      omega
    rw [loop, if_pos hin] at hphase
    obtain ⟨receiver', name', hr, h⟩ := receive_inner u i hphase hkeep
    rw [Upload.received_of_colonFree hcolon] at h
    exact ⟨_, _, h, Or.inr ⟨Nat.succ_pos k, hcount, receiver', name', _, hr.name.trans hfield, rfl⟩⟩

/-- The server has been in the inner loop, and has left it. -/
def Left (s : Server) (k : Nat) : Prop := (∃ name, s.phase = .ending name) ∨ s.phase = .outer ∧ k ≠ 0

/-- The server leaves the inner loop with as many packets as it was told. -/
theorem At.left (hat : s.At u k) (hk : k ≤ u.total) (htotal : u.total < 2 ^ 31) (hleft : s.Left k) :
    k = u.total ∧ s.totalFrag = UInt32.ofNat u.total := by
  rcases hat with ⟨hphase, hk'⟩ | ⟨-, hcount, receiver, name, fd, -, hphase⟩
  · rcases hleft with ⟨name, hending⟩ | ⟨-, hk0⟩
    · rw [hphase] at hending
      cases hending
    · exact hk'.resolve_left hk0
  · refine ⟨?_, hcount⟩
    by_cases hin : k < s.totalFrag.toNat
    · rw [loop, if_pos hin] at hphase
      rw [Left, hphase] at hleft
      rcases hleft with ⟨name, hending⟩ | ⟨houter, -⟩
      · cases hending
      · cases houter
    · rw [hcount, UInt32.toNat_ofNat'] at hin
      omega

theorem At.finish {server : Server} {goodbye : Bytes} (hat : s.At u k) (hk : k ≤ u.total) (htotal : u.total < 2 ^ 31)
    (h : s.finish = some (server, goodbye)) : server.At u k ∧ k = u.total := by
  cases hphase : s.phase with
  | ending name =>
    obtain ⟨hk', hcount⟩ := hat.left hk htotal (Or.inl ⟨name, hphase⟩)
    simp only [Server.finish, hphase] at h
    obtain ⟨endOfFile, -, h⟩ := Option.bind_eq_some_iff.1 h
    cases h
    exact ⟨Or.inl ⟨rfl, Or.inr ⟨hk', hcount⟩⟩, hk'⟩
  | _ =>
    simp only [Server.finish, hphase] at h
    cases h

end Server

end FileTransfer
