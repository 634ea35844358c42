import NetLabs.FileTransfer.Transfer

/-!
# Late and lost acknowledgements

The server does not look at the number of a packet, so a second copy that it does not drop becomes one fragment more.
As long as it drops every copy of a packet that it has accepted before (`KeepsNew`), each acknowledgement that the
sender takes stands for a fragment that has been written (`Safe.replies`), whatever else is late or lost.
-/

namespace FileTransfer

open CText Transition

/-- The fragment that the sender is at; all of them when it has left the loop. -/
def SenderPhase.position (total : Nat) : SenderPhase → Nat
  | .sending i _ => i
  | .waiting i _ => i
  | .goodbye => total
  | .finished => total

/-- What is expected of a transfer, in every state. -/
structure Reliable (u : Upload) (s : Net) : Prop where
  /-- The bytes written are the first ones of the file. -/
  prefix_file : s.written <+: u.file
  /-- They are whole fragments, each of them once. -/
  fragments : ∃ k, s.written = (List.range k).flatMap u.fragment
  /-- A fragment that the sender has moved on from is written. -/
  moved_on : ∀ k < s.sender.position u.total, (List.range (k + 1)).flatMap u.fragment <+: s.written

/-- The server drops what it has accepted before. -/
def KeepsNew (u : Upload) (s : Net) : NetEvent → Prop
  | .receive n randNum => 5 < randNum → ∀ j < s.accepted, s.toServer[n]? ≠ some (u.datagram j)
  | _ => True

/-! ### The sender -/

/-- The replies that the sender has heard. -/
def SenderPhase.heard (total : Nat) : SenderPhase → Nat
  | .sending i _ => i
  | .waiting i _ => i
  | .goodbye => total
  | .finished => total + 1

/-- What the sender sends is a packet of the file. -/
def Net.SendsFile (u : Upload) (s : Net) : Prop :=
  ∀ i data, s.sender = .sending i data ∨ s.sender = .waiting i data → i < u.total ∧ data = u.datagram i

section Sender

variable {u : Upload} {s t : Net} {i n : Nat}

private theorem Net.SendsFile.position_eq (hs : s.SendsFile u) :
    s.sender.position u.total = min (s.sender.heard u.total) u.total := by
  cases hphase : s.sender with
  | sending i data => exact (Nat.min_eq_left (hs i data (Or.inl hphase)).1.le).symm
  | waiting i data => exact (Nat.min_eq_left (hs i data (Or.inr hphase)).1.le).symm
  | goodbye => exact (Nat.min_self u.total).symm
  | finished => exact (Nat.min_eq_right (Nat.le_succ u.total)).symm

theorem nextFragment_heard (hi : i ≤ u.total) :
    ∃ phase, u.nextFragment i = some phase ∧ phase.heard u.total = i ∧
      ∀ j data, phase = .sending j data ∨ phase = .waiting j data → j < u.total ∧ data = u.datagram j := by
  rcases Nat.lt_or_eq_of_le hi with hlt | rfl
  · refine ⟨_, Upload.nextFragment_of_lt u.count_lt hlt, rfl, ?_⟩
    rintro j data (h | h)
    · cases h
      exact ⟨hlt, rfl⟩
    · cases h
  · exact ⟨_, Upload.nextFragment_of_le le_rfl, rfl, by rintro j data (h | h) <;> cases h⟩

theorem Net.Begins.sendsFile (h : s.Begins u) : s.SendsFile u ∧ s.sender.heard u.total = 0 := by
  obtain ⟨phase, hnext, hheard, hsending⟩ := nextFragment_heard (Nat.zero_le u.total)
  obtain rfl : phase = s.sender := Option.some.inj (hnext.symm.trans h.sender)
  exact ⟨hsending, hheard⟩

theorem Net.SendsFile.send (hs : s.SendsFile u) (h : s.next u .send = some t) :
    t.SendsFile u ∧ t.sender.heard u.total = s.sender.heard u.total ∧ ∃ i < u.total, s.sender.heard u.total = i ∧
      t = { s with sender := .waiting i (u.datagram i), toServer := s.toServer ++ [u.datagram i], dropped := false } := by
  cases hphase : s.sender with
  | sending i data =>
    simp only [next, hphase, Option.some.injEq] at h
    subst h
    obtain ⟨hi, rfl⟩ := hs i data (Or.inl hphase)
    refine ⟨?_, rfl, i, hi, rfl, rfl⟩
    rintro j data (h | h)
    · cases h
    · cases h
      exact ⟨hi, rfl⟩
  | _ =>
    simp only [next, hphase] at h
    cases h

/-- The timer only takes the sender back to the packet that it has sent. -/
theorem Net.SendsFile.timeout (hs : s.SendsFile u) (h : s.next u .timeout = some t) :
    t.SendsFile u ∧ t.sender.heard u.total = s.sender.heard u.total ∧ t = { s with sender := t.sender } := by
  cases hphase : s.sender with
  | waiting i data =>
    simp only [next, hphase, Option.some.injEq] at h
    subst h
    obtain ⟨hi, rfl⟩ := hs i data (Or.inr hphase)
    refine ⟨?_, rfl, rfl⟩
    rintro j data (h | h)
    · cases h
      exact ⟨hi, rfl⟩
    · cases h
  | goodbye =>
    simp only [next, hphase, Option.some.injEq] at h
    subst h
    exact ⟨hs, by rw [hphase], rfl⟩
  | _ =>
    simp only [next, hphase] at h
    cases h

/-- Whatever the sender hears takes it one step further. -/
theorem Net.SendsFile.hear (hs : s.SendsFile u) (h : s.next u (.hear n) = some t) :
    t.SendsFile u ∧ t.sender.heard u.total = s.sender.heard u.total + 1 ∧ n < s.toSender.length ∧
      t = { s with sender := t.sender, toSender := s.toSender.eraseIdx n } := by
  obtain ⟨reply, phase, hreply, hphase', rfl⟩ := next_hear_iff.1 h
  obtain ⟨hn, -⟩ := List.getElem?_eq_some_iff.1 hreply
  cases hphase : s.sender with
  | waiting i data =>
    obtain ⟨hi, -⟩ := hs i data (Or.inr hphase)
    obtain ⟨next, hnext, hheard, hsending⟩ := nextFragment_heard (Nat.succ_le_of_lt hi)
    rw [hphase] at hphase'
    obtain rfl : next = phase := Option.some.inj (hnext.symm.trans hphase')
    exact ⟨hsending, hheard, hn, rfl⟩
  | goodbye =>
    rw [hphase] at hphase'
    cases hphase'
    refine ⟨?_, rfl, hn, rfl⟩
    rintro i data (h | h) <;> cases h
  | _ =>
    rw [hphase] at hphase'
    cases hphase'

end Sender

/-! ### The invariant -/

/-- The invariant of these runs. -/
structure Safe (u : Upload) (s : Net) : Prop where
  sending : ∀ i data, s.sender = .sending i data ∨ s.sender = .waiting i data → i < u.total ∧ data = u.datagram i
  toServer : ∀ d ∈ s.toServer, ∃ j < u.total, j ≤ s.sender.position u.total ∧ d = u.datagram j
  position_le : s.sender.position u.total ≤ s.accepted
  accepted_le : s.accepted ≤ s.sender.position u.total + 1
  accepted_le_total : s.accepted ≤ u.total
  /-- An acknowledgement on its way stands for an accepted packet that the sender does not know of. -/
  replies : s.accepted = u.total ∨ s.sender.position u.total + s.toSender.length ≤ s.accepted
  server : s.server.At u s.accepted
  written : s.written = (List.range s.accepted).flatMap u.fragment

section Steps

variable {u : Upload} {s t : Net} {e : NetEvent} {i n randNum : Nat} {data : Bytes}

theorem Net.Begins.safe (h : s.Begins u) : Safe u s := by
  obtain ⟨hsending, hheard⟩ := h.sendsFile
  have hpos : s.sender.position u.total = 0 := by rw [hsending.position_eq, hheard, Nat.zero_min]
  constructor
  · exact hsending
  · simp [h.toServer]
  · omega
  · rw [h.accepted]
    omega
  · rw [h.accepted]
    omega
  · rw [hpos, h.toSender, h.accepted]
    exact Or.inr le_rfl
  · exact Or.inl ⟨h.outer, Or.inl h.accepted⟩
  · rw [h.written, h.accepted]
    rfl

/-- A step of the sender that keeps its position, and puts at most its packet on the way. -/
private theorem Safe.of_position (hs : Safe u s) {phase : SenderPhase} {toServer : List Bytes} {dropped : Bool}
    (hsending : ({ s with sender := phase } : Net).SendsFile u)
    (hpos : phase.position u.total = s.sender.position u.total)
    (hto : ∀ d ∈ toServer, ∃ j < u.total, j ≤ s.sender.position u.total ∧ d = u.datagram j) :
    Safe u { s with sender := phase, toServer := toServer, dropped := dropped } := by
  have hle := hs.position_le
  have hge := hs.accepted_le
  have hreplies := hs.replies
  rw [← hpos] at hto hle hge hreplies
  exact ⟨hsending, hto, hle, hge, hs.accepted_le_total, hreplies, hs.server, hs.written⟩

theorem Safe.send (hs : Safe u s) (h : s.next u .send = some t) : Safe u t := by
  have hfile : s.SendsFile u := hs.sending
  obtain ⟨hsending, hheard, i, hi, hsi, ht⟩ := hfile.send h
  have hpos : t.sender.position u.total = s.sender.position u.total := by
    rw [hsending.position_eq, hfile.position_eq, hheard]
  have hsender : i ≤ s.sender.position u.total := by
    rw [hfile.position_eq, hsi]
    omega
  subst ht
  refine hs.of_position hsending hpos fun d hd => ?_
  rcases List.mem_append.1 hd with hd | hd
  · exact hs.toServer d hd
  · exact ⟨i, hi, hsender, List.mem_singleton.1 hd⟩

theorem Safe.timeout (hs : Safe u s) (h : s.next u .timeout = some t) : Safe u t := by
  have hfile : s.SendsFile u := hs.sending
  obtain ⟨hsending, hheard, ht⟩ := hfile.timeout h
  have hpos : t.sender.position u.total = s.sender.position u.total := by
    rw [hsending.position_eq, hfile.position_eq, hheard]
  rw [ht]
  exact hs.of_position hsending hpos hs.toServer

/-- What the sender hears while it waits, it takes for the acknowledgement. -/
theorem Safe.hear (hs : Safe u s) (h : s.next u (.hear n) = some t) : Safe u t := by
  have hfile : s.SendsFile u := hs.sending
  obtain ⟨hsending, hheard, hn, ht⟩ := hfile.hear h
  have hlen : (s.toSender.eraseIdx n).length + 1 = s.toSender.length := by
    rw [List.length_eraseIdx_of_lt hn]
    omega
  have hpos : t.sender.position u.total = min (s.sender.position u.total + 1) u.total := by
    rw [hsending.position_eq, hfile.position_eq, hheard]
    omega
  have hle := hs.position_le
  have hge := hs.accepted_le
  have htotal := hs.accepted_le_total
  have hreplies := hs.replies
  rw [ht]
  refine ⟨hsending, ?_, ?_, ?_, htotal, ?_, hs.server, hs.written⟩
  · intro d hd
    obtain ⟨j, hj, hji, rfl⟩ := hs.toServer d hd
    exact ⟨j, hj, by show j ≤ t.sender.position u.total; omega, rfl⟩
  · show t.sender.position u.total ≤ s.accepted
    omega
  · show s.accepted ≤ t.sender.position u.total + 1
    omega
  · show s.accepted = u.total ∨ t.sender.position u.total + (s.toSender.eraseIdx n).length ≤ s.accepted
    omega

/-- A packet that the server has not accepted before is the one that the sender is at. -/
theorem Safe.receive (hcount : ⌈(u.file.length : ℚ) / fileFragSize⌉ < 2 ^ 31) (hcolon : colon ∉ u.name.bytes)
    (hs : Safe u s) (hkeep : KeepsNew u s (.receive n randNum)) (h : s.next u (.receive n randNum) = some t) :
    Safe u t := by
  obtain ⟨d, turn, hd, hturn, rfl⟩ := Net.next_receive_iff.1 h
  have hto : ∀ d ∈ s.toServer.eraseIdx n, ∃ j < u.total, j ≤ s.sender.position u.total ∧ d = u.datagram j :=
    fun d hd => hs.toServer d (List.eraseIdx_subset hd)
  by_cases hkept : 5 < randNum
  · obtain ⟨j, hj, hji, rfl⟩ := hs.toServer d (List.mem_of_getElem? hd)
    have hnew : s.accepted ≤ j := by
      by_contra hlt
      exact hkeep hkept j (by omega) hd
    have hle := hs.position_le
    have hreplies := hs.replies
    obtain rfl : j = s.accepted := by omega
    obtain ⟨server, reply, hreceive, hat⟩ := hs.server.receive (i := s.accepted) hj (Upload.total_lt hcount) hcolon hkept
    obtain rfl := Option.some.inj (hreceive.symm.trans hturn)
    refine ⟨hs.sending, hto, ?_, ?_, hj, ?_, hat, ?_⟩
    · show s.sender.position u.total ≤ s.accepted + 1
      omega
    · show s.accepted + 1 ≤ s.sender.position u.total + 1
      omega
    · show s.accepted + 1 = u.total ∨ s.sender.position u.total + (s.toSender ++ [reply]).length ≤ s.accepted + 1
      rw [List.length_append, List.length_singleton]
      omega
    · show s.written ++ u.fragment s.accepted = (List.range (s.accepted + 1)).flatMap u.fragment
      rw [hs.written, List.range_succ, List.flatMap_append, List.flatMap_singleton]
  · obtain rfl := Server.receive_dropped hkept hturn
    refine ⟨hs.sending, hto, hs.position_le, hs.accepted_le, hs.accepted_le_total, ?_, hs.server, ?_⟩
    · simpa using hs.replies
    · simpa using hs.written

theorem Safe.finish (hcount : ⌈(u.file.length : ℚ) / fileFragSize⌉ < 2 ^ 31) (hs : Safe u s)
    (h : s.next u .finish = some t) : Safe u t := by
  obtain ⟨server, goodbye, hfinish, rfl⟩ := Net.next_finish_iff.1 h
  obtain ⟨hat, htotal⟩ := hs.server.finish hs.accepted_le_total (Upload.total_lt hcount) hfinish
  exact ⟨hs.sending, hs.toServer, hs.position_le, hs.accepted_le, hs.accepted_le_total, Or.inl htotal, hat, hs.written⟩

theorem Safe.step (hcount : ⌈(u.file.length : ℚ) / fileFragSize⌉ < 2 ^ 31) (hcolon : colon ∉ u.name.bytes)
    (hs : Safe u s) (hkeep : KeepsNew u s e) (h : s.next u e = some t) : Safe u t := by
  cases e with
  | send => exact hs.send h
  | timeout => exact hs.timeout h
  | hear n => exact hs.hear h
  | receive n randNum => exact hs.receive hcount hcolon hkeep h
  | finish => exact hs.finish hcount h
  | losePacket n =>
    simp only [Net.next, Option.ite_none_right_eq_some, Option.some.injEq] at h
    obtain ⟨-, rfl⟩ := h
    exact ⟨hs.sending, fun d hd => hs.toServer d (List.eraseIdx_subset hd), hs.position_le, hs.accepted_le,
      hs.accepted_le_total, hs.replies, hs.server, hs.written⟩
  | loseReply n =>
    simp only [Net.next, Option.ite_none_right_eq_some, Option.some.injEq] at h
    obtain ⟨hn, rfl⟩ := h
    refine ⟨hs.sending, hs.toServer, hs.position_le, hs.accepted_le, hs.accepted_le_total, ?_, hs.server, hs.written⟩
    have hlen := List.length_eraseIdx_le s.toSender n
    have := hs.replies
    show s.accepted = u.total ∨ s.sender.position u.total + (s.toSender.eraseIdx n).length ≤ s.accepted
    omega

/-- The invariant is more than what is expected. -/
private theorem Safe.reliable (hs : Safe u s) : Reliable u s := by
  refine ⟨?_, ⟨_, hs.written⟩, fun k hk => ?_⟩
  · rw [hs.written, flatMap_fragment]
    exact List.take_prefix _ _
  · rw [hs.written, flatMap_fragment, flatMap_fragment]
    have := hs.position_le
    exact List.take_prefix_take_left (Nat.mul_le_mul_left _ (by omega))

end Steps

/-- However late the acknowledgements and the packets are, and whichever of them are lost, the transfer is reliable as
long as the server drops the copies of what it has accepted. -/
theorem late_acknowledgements {u : Upload} {s : Net} (hcount : ⌈(u.file.length : ℚ) / fileFragSize⌉ < 2 ^ 31)
    (hcolon : colon ∉ u.name.bytes) (hr : Reachable ((transfer u).when (KeepsNew u)) s) : Reliable u s := by
  have hsafe : Safe u s := hr.invariant (fun _ h => h.safe) fun _ _ _ _ hs h => hs.step hcount hcolon h.1 h.2
  exact hsafe.reliable

/-! ### A packet that is sent twice -/

theorem Net.next_receive {u : Upload} {s : Net} {n randNum : Nat} {d : Bytes} {turn : Turn} (hd : s.toServer[n]? = some d)
    (h : s.server.receive d randNum = some turn) :
    s.next u (.receive n randNum) = some { s with
      server := turn.server
      toServer := s.toServer.eraseIdx n
      toSender := s.toSender ++ turn.replies
      written := s.written ++ turn.wrote.getD []
      accepted := s.accepted + turn.wrote.toList.length
      dropped := s.dropped || turn.wrote.isNone } := next_receive_iff.2 ⟨d, turn, hd, h, rfl⟩

/-- A file of 1001 bytes, which is two fragments. -/
def letters : Upload where
  file := List.replicate 1001 97
  name := ⟨ascii "letters", by decide, by decide⟩
  total := 2
  counted := by
    have hceil : ⌈((1001 : ℕ) : ℚ) / fileFragSize⌉ = 2 := by norm_num [Int.ceil_eq_iff]
    rw [List.length_replicate, totalFrag_eq (by rw [hceil]; norm_num), hceil]
    rfl

theorem length_letters : letters.file.length = 1001 := List.length_replicate

theorem letters_count : ⌈(letters.file.length : ℚ) / fileFragSize⌉ < 2 ^ 31 := by
  have hceil : ⌈((1001 : ℕ) : ℚ) / fileFragSize⌉ = 2 := by norm_num [Int.ceil_eq_iff]
  rw [letters, List.length_replicate, hceil]
  norm_num

/-- The first packet has been sent `copies` times, and has not arrived. -/
def lettersSent (copies : Nat) : Net where
  sender := .waiting 0 (letters.datagram 0)
  server := ⟨.outer, 0, fun _ => none⟩
  toServer := List.replicate copies (letters.datagram 0)
  toSender := []
  written := []
  accepted := 0
  dropped := false

theorem reachable_lettersSent {cond : Net → NetEvent → Prop} (hsend : ∀ s, cond s .send) :
    Reachable ((transfer letters).when cond) (lettersSent 1) := by
  let start : Net := { lettersSent 0 with sender := .sending 0 (letters.datagram 0) }
  have hstart : start.Begins letters :=
    ⟨Upload.nextFragment_of_lt letters_count Nat.two_pos, rfl, rfl, rfl, rfl, rfl, rfl⟩
  exact .step (.init hstart) (e := .send) ⟨hsend start, rfl⟩

private theorem reachable_sentTwice {cond : Net → NetEvent → Prop} (hsend : ∀ s, cond s .send)
    (htimeout : ∀ s, cond s .timeout) : Reachable ((transfer letters).when cond) (lettersSent 2) :=
  .step (.step (reachable_lettersSent hsend) (e := .timeout) ⟨htimeout _, rfl⟩) (e := .send) ⟨hsend _, rfl⟩

/-- The early timer sends the first packet twice.  The server accepts one copy and the other is lost, the acknowledgement
is heard late, and the second packet is lost too. -/
theorem late_acknowledgements_letters : ∃ s, Reachable ((transfer letters).when (KeepsNew letters)) s ∧
    s.sender = .waiting 1 (letters.datagram 1) ∧ s.toServer = [] ∧ s.accepted = 1 ∧ Reliable letters s := by
  obtain ⟨server, reply, hreceive, -⟩ := Server.At.receive (u := letters) (s := (lettersSent 2).server) (i := 0) (k := 0)
    (Or.inl ⟨rfl, Or.inl rfl⟩) Nat.two_pos (by decide) (by decide) (show 5 < 100 by decide)
  have hsent : Reachable ((transfer letters).when (KeepsNew letters)) (lettersSent 2) :=
    reachable_sentTwice (fun _ => trivial) fun _ => trivial
  have hnew : KeepsNew letters (lettersSent 2) (.receive 0 100) := fun _ j hj => absurd hj (Nat.not_lt_zero j)
  have haccepted : Reachable ((transfer letters).when (KeepsNew letters)) _ :=
    .step hsent ⟨hnew, Net.next_receive (n := 0) rfl hreceive⟩
  have hkept : Reachable ((transfer letters).when (KeepsNew letters)) _ :=
    .step haccepted (e := .losePacket 0) ⟨trivial, rfl⟩
  have hnext : letters.hear (.waiting 0 (letters.datagram 0)) = some (.sending 1 (letters.datagram 1)) :=
    Upload.nextFragment_of_lt letters_count Nat.one_lt_two
  have hheard : Reachable ((transfer letters).when (KeepsNew letters)) _ :=
    .step hkept (e := .hear 0) ⟨trivial, Net.next_hear_iff.2 ⟨reply, _, rfl, hnext, rfl⟩⟩
  have hsecond : Reachable ((transfer letters).when (KeepsNew letters)) _ := .step hheard (e := .send) ⟨trivial, rfl⟩
  have hlost : Reachable ((transfer letters).when (KeepsNew letters)) _ :=
    .step hsecond (e := .losePacket 0) ⟨trivial, rfl⟩
  exact ⟨_, hlost, rfl, rfl, rfl, late_acknowledgements letters_count (by decide) hlost⟩

/-- The server accepts both copies of the first packet, and has written it twice. -/
theorem late_acknowledgements_fails : ∃ s, Reachable (transfer letters) s ∧ ¬ Reliable letters s := by
  obtain ⟨server, reply, hreceive, hat⟩ := Server.At.receive (u := letters) (s := (lettersSent 2).server) (i := 0) (k := 0)
    (Or.inl ⟨rfl, Or.inl rfl⟩) Nat.two_pos (by decide) (by decide) (show 5 < 100 by decide)
  obtain ⟨server', reply', hreceive', -⟩ := hat.receive (i := 0) Nat.one_lt_two (by decide) (by decide)
    (show 5 < 100 by decide)
  have hsent : Reachable (transfer letters) (lettersSent 2) :=
    (reachable_sentTwice (fun _ => trivial) fun _ => trivial :
      Reachable ((transfer letters).when fun _ _ => True) (lettersSent 2)).of_when
  refine ⟨_, .step (.step hsent (Net.next_receive (n := 0) rfl hreceive)) (Net.next_receive (n := 0) rfl hreceive'), ?_⟩
  intro h
  have hlen := h.prefix_file.length_le
  have hfragment : (letters.fragment 0).length = 1000 := by
    rw [Upload.fragment, List.length_take, List.length_drop, length_letters]
    rfl
  simp only [List.length_append, Option.getD_some, hfragment, length_letters] at hlen
  omega

end FileTransfer
