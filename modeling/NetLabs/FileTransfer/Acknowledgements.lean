import NetLabs.FileTransfer.Session

/-!
# The numbers in the acknowledgements

The server fills an acknowledgement with the count of the last transfer and its own loop counter, and the first packet of
a file is answered before it is read.  The loop counter is the packet's number when the packets come in turn; the count
is the packet's own from the second packet on (`Exchange.tellsTruth_iff`).
-/

namespace FileTransfer

open CText Transition

/-- The packet in a datagram, as the server reads it. -/
def packetOf (datagram : Bytes) : Option Packet :=
  (bufferToPacket (CArray.zero 12) Packet.zero (CArray.zero nameLength) (Server.recvFrom datagram).bytes).map Prod.fst

/-- The acknowledgement with a packet's own numbers. -/
def Packet.acknowledgement (p : Packet) : Bytes := ackText (fillTheAck p.totalFrag p.fragNo recevd) ++ [0]

/-- Every reply to a datagram has the numbers of its packet. -/
def Server.TellsTruth (s : Server) (datagram : Bytes) (randNum : Nat) : Prop :=
  ∀ turn, s.receive datagram randNum = some turn → ∀ reply ∈ turn.replies,
    ∃ p, packetOf datagram = some p ∧ reply = p.acknowledgement

section Acknowledgements

variable {u : Upload} {before : Bytes → Option Bytes} {s : Net} {server : Server} {k n randNum : Nat} {d : Bytes}

private theorem packetOf_datagram (u : Upload) (i : Nat) : ∃ p, packetOf (u.datagram i) = some p ∧
    p.acknowledgement = ackText (fillTheAck (UInt32.ofNat u.total) (UInt32.ofNat (i + 1)) recevd) ++ [0] := by
  obtain ⟨p, name, hread, hp⟩ := bufferToPacket_received u i (CArray.zero 12) Packet.zero (CArray.zero nameLength)
  refine ⟨p, by rw [packetOf, hread]; rfl, ?_⟩
  rw [Packet.acknowledgement, hp.totalFrag, hp.fragNo]

/-- Two acknowledgements that differ in the count differ. -/
private theorem ackText_injective {a b fn fn' : UInt32} {r r' : Byte}
    (h : ackText (fillTheAck a fn r) = ackText (fillTheAck b fn' r')) : a = b := by
  have hcolon : ∀ v, colon ∉ printD v := fun v => not_mem_printD (by decide) (by decide)
  have hcount := (field_unique (hcolon a) (hcolon b) h).1
  rw [← atoi_printD a, hcount, atoi_printD]

/-- The next packet is answered with its own numbers when the server has its count. -/
private theorem Accepted.tellsTruth_iff (h : Accepted u before server k) (hk : k < u.total) (hkept : 5 < randNum) :
    server.TellsTruth (u.datagram k) randNum ↔ server.totalFrag = UInt32.ofNat u.total := by
  obtain ⟨next, hreceive, -⟩ := h.receive hk hkept
  obtain ⟨p, hp, hack⟩ := packetOf_datagram u k
  constructor
  · intro htruth
    obtain ⟨p', hp', hreply⟩ := htruth _ hreceive _ (List.mem_singleton_self _)
    obtain rfl : p' = p := Option.some.inj (hp'.symm.trans hp)
    rw [hack] at hreply
    exact ackText_injective (List.append_cancel_right hreply)
  · intro hcount turn hturn reply hreply
    obtain rfl := Option.some.inj (hreceive.symm.trans hturn)
    refine ⟨p, hp, ?_⟩
    rw [List.mem_singleton.1 hreply, hack, hcount]

/-- From the second packet on, it has. -/
theorem Accepted.totalFrag_eq (h : Accepted u before server k) :
    server.totalFrag = UInt32.ofNat u.total ↔ (server.phase = .outer → server.totalFrag = UInt32.ofNat u.total) := by
  cases h with
  | nothing phase files => exact ⟨fun hcount _ => hcount, fun hcount => hcount phase⟩
  | packets pos count phase name_eq files => exact ⟨fun hcount _ => hcount, fun _ => count⟩

/-- What is dropped is not answered. -/
private theorem Server.tellsTruth_of_dropped (hdrop : ¬ 5 < randNum) : server.TellsTruth d randNum := by
  intro turn hturn reply hreply
  rw [Server.receive_dropped hdrop hturn] at hreply
  cases hreply

private theorem Exchange.tellsTruth_iff (hx : Exchange u before s) (hkeep : KeepsNew u s (.receive n randNum))
    (hd : s.toServer[n]? = some d) : s.server.TellsTruth d randNum ↔
      (5 < randNum → s.server.phase = .outer → s.server.totalFrag = UInt32.ofNat u.total) := by
  by_cases hkept : 5 < randNum
  · obtain ⟨rfl, hlt, haccepted⟩ := hx.expected hkeep hkept hd
    rw [haccepted.tellsTruth_iff hlt hkept]
    exact haccepted.totalFrag_eq.trans ⟨fun h _ => h, fun h => h hkept⟩
  · exact ⟨fun _ hkept' => absurd hkept' hkept, fun _ => Server.tellsTruth_of_dropped hkept⟩

end Acknowledgements

/-- In every run in which no packet is accepted twice, an acknowledgement is right unless it answers the first packet of a
file whose count is not that of the transfer before. -/
theorem acknowledgements_tell_the_truth {u : Upload} {s : Session} {n randNum : Nat} {datagram : Bytes}
    (hr : Reachable (session.when InTurn) s) (hu : s.upload = some u) (hturn : InTurn s (.step (.receive n randNum)))
    (hd : s.net.toServer[n]? = some datagram) : s.net.server.TellsTruth datagram randNum ↔
      (5 < randNum → s.net.server.phase = .outer → s.net.server.totalFrag = UInt32.ofNat u.total) :=
  ((Session.orderly hr).2 u hu).tellsTruth_iff (hturn u hu) hd

/-- The first packet of `letters`, on its way to a server that has just started. -/
private theorem reachable_first_packet : ∃ net, Reachable (session.when InTurn) ⟨some letters, net, fun _ => none⟩ ∧
    Standing letters (fun _ => none) net (.waiting 0 (letters.datagram 0)) [letters.datagram 0] [] 0 ∧
    net.server = (Session.start fun _ => none).net.server := by
  obtain ⟨net, hbegin, hs, hserver⟩ := Session.reachable_begin (u := letters) (s := .start fun _ => none)
    (.init ⟨_, rfl⟩) ⟨rfl, rfl, rfl⟩ rfl Nat.two_pos
  obtain ⟨sent, hsent, hs, hsame⟩ := Session.reachable_sent hbegin hs
  exact ⟨sent, hsent, hs, hsame.trans hserver⟩

/-- The second packet of `letters`. -/
theorem acknowledgements_tell_the_truth_letters : ∃ s : Session, s.net.accepted = 1 ∧
    s.net.toServer[0]? = some (letters.datagram 1) ∧ s.net.server.TellsTruth (letters.datagram 1) 100 := by
  obtain ⟨net, hbegin, hs, -⟩ := Session.reachable_begin (u := letters) (s := .start fun _ => none)
    (.init ⟨_, rfl⟩) ⟨rfl, rfl, rfl⟩ rfl Nat.two_pos
  obtain ⟨net, hnext, hs⟩ := Session.reachable_next hbegin Nat.one_lt_two hs
  obtain ⟨sent, hsent, hs, -⟩ := Session.reachable_sent hnext hs
  have hd : sent.toServer[0]? = some (letters.datagram 1) := by rw [hs.toServer]; rfl
  have hturn : InTurn ⟨some letters, sent, fun _ => none⟩ (.step (.receive 0 100)) := by
    rintro _ ⟨⟩ - j hj hcopy
    rw [hs.accepted] at hj
    have := letters.datagram_injective (by decide) (by omega) (Option.some.inj (hd.symm.trans hcopy))
    omega
  refine ⟨_, hs.accepted, hd, (acknowledgements_tell_the_truth hsent rfl hturn hd).2 fun _ houter => ?_⟩
  cases hs.server with
  | packets pos count phase name_eq files => exact count

/-- The first packet of the first file is one of 2, and is answered as the first of 0. -/
theorem acknowledgements_tell_the_truth_fails : ∃ s turn, Reachable (session.when InTurn) s ∧
    s.net.toServer[0]? = some (letters.datagram 0) ∧ s.net.server.receive (letters.datagram 0) 100 = some turn ∧
    turn.replies = [ascii "0:1:1:" ++ [0]] ∧ ¬ s.net.server.TellsTruth (letters.datagram 0) 100 := by
  obtain ⟨net, hr, hs, hserver⟩ := reachable_first_packet
  have hd : net.toServer[0]? = some (letters.datagram 0) := by rw [hs.toServer]; rfl
  obtain ⟨server, hreceive, -⟩ := hs.server.receive Nat.two_pos (show 5 < 100 by decide)
  refine ⟨_, _, hr, hd, hreceive, ?_, ?_⟩
  · show [ackText (fillTheAck net.server.totalFrag 1 recevd) ++ [0]] = _
    rw [hserver]
    rfl
  · intro htruth
    have hcount := (hs.server.tellsTruth_iff Nat.two_pos (by decide)).1 htruth
    rw [hserver] at hcount
    exact absurd hcount (by decide)

end FileTransfer
