import NetLabs.FileTransfer.Session

/-!
# Waiting for nothing

The sender sends a packet again when its timer fires, and waits for ever when `setsockopt` has set the timer to zero; it
sends nothing while it waits for the goodbye message.  Over a channel that loses nothing, the acknowledgements that the
sender has heard and those on their way are as many as the server has accepted packets (`Counted`), so both sides wait for
nothing (`Timed.Stuck`) only when the file is empty, or when the server has dropped the one packet on its way while the
timer is off (`Timed.Strands`).
-/

namespace FileTransfer

open CText Transition

/-! ### The timer of deliver -/

/-- `CLOCKS_PER_SEC`. -/
def clocksPerSec : Nat := 1000000

/-- `second_to_microsecond`. -/
def secondToMicrosecond : Nat := 1000000

/-- `(int) q`. -/
def truncate (q : ℚ) : ℤ := if 0 ≤ q then ⌊q⌋ else ⌈q⌉

/-- `new_estimate_RTT`, with `alpha = 0.125`. -/
def newEstimateRTT (sampleRTT oldEstimatedRTT : ℚ) : ℚ :=
  Double.round (Double.round ((1 - 1 / 8) * oldEstimatedRTT) + Double.round (1 / 8 * sampleRTT))

/-- `new_dev_RTT`, with `beta = 0.25`. -/
def newDevRTT (devRTT sampleRTT estimatedRTT : ℚ) : ℚ :=
  Double.round (Double.round ((1 - 1 / 4) * devRTT) + Double.round (1 / 4 * |Double.round (sampleRTT - estimatedRTT)|))

/-- `deliver` with what it computes the timer from, and what `setsockopt` has set the timer to.  `ended` is history: whether
the end-of-transfer message has been received. -/
structure Timed where
  net : Net
  estimatedRTT : ℚ
  devRTT : ℚ
  timeInterval : ℚ
  tvSec : ℤ
  tvUsec : ℤ
  ended : Bool

/-- The start of the end-of-transfer message. -/
def endOfFile : Bytes := ascii "End of File Transfer for "

namespace Timed

/-- `SO_RCVTIMEO`: `recvfrom` waits for ever when both are zero. -/
def Armed (s : Timed) : Prop := s.tvSec ≠ 0 ∨ s.tvUsec ≠ 0

instance (s : Timed) : Decidable s.Armed := inferInstanceAs (Decidable (_ ∨ _))

/-- What follows the loop that sends fragment `i`; `ticks` is `end_time - start_time`. -/
def measure (s : Timed) (i ticks : Nat) : Timed :=
  let rtt := Double.round (Double.round ticks / clocksPerSec)
  let estimatedRTT := if i = 0 then rtt else newEstimateRTT rtt s.estimatedRTT
  let devRTT := if i = 0 then Double.round (rtt / 2) else newDevRTT s.devRTT rtt estimatedRTT
  { s with
    estimatedRTT := estimatedRTT
    devRTT := devRTT
    timeInterval := Double.round (estimatedRTT + Double.round (4 * devRTT)) }

/-- The `timeout` of the fragment that is sent next. -/
def setTimeout (s : Timed) : Timed :=
  match s.net.sender with
  | .sending 0 _ => { s with tvSec := 1, tvUsec := 0 }
  | .sending _ _ =>
    let seconds := truncate s.timeInterval
    { s with
      tvSec := seconds
      tvUsec := truncate (Double.round (Double.round (s.timeInterval - seconds) * secondToMicrosecond)) }
  | _ => s

/-- What the sender does with a message: it measures the round trip in the first loop only. -/
def hear (s : Timed) (net : Net) (message : Bytes) (ticks : Nat) : Timed :=
  let measured := match s.net.sender with
    | .waiting i _ => s.measure i ticks
    | _ => s
  setTimeout { measured with net := net, ended := s.ended || endOfFile.isPrefixOf message }

/-- The steps of both sides; the channel loses nothing. -/
def next (u : Upload) (s : Timed) (ticks : Nat) : NetEvent → Option Timed
  | .timeout => if s.Armed then (s.net.next u .timeout).map fun net => { s with net := net } else none
  | .hear n => do
    let message ← s.net.toSender[n]?
    let net ← s.net.next u (.hear n)
    some (s.hear net message ticks)
  | .losePacket _ => none
  | .loseReply _ => none
  | e => (s.net.next u e).map fun net => { s with net := net }

/-- The first fragment is sent; what the timer is set to otherwise is left from the file before. -/
structure Begins (u : Upload) (s : Timed) : Prop where
  net : s.net.Begins u
  estimatedRTT : s.estimatedRTT = 0
  devRTT : s.devRTT = 0
  armed : s.net.sender ≠ .goodbye → s.tvSec = 1 ∧ s.tvUsec = 0
  ended : s.ended = false

end Timed

/-- The runs of one transfer, with the ticks that the sender measures. -/
def timed (u : Upload) : System Timed (NetEvent × Nat) where
  init s := s.Begins u
  step s e t := s.next u e.2 e.1 = some t

namespace Timed

/-- Both sides wait in `recvfrom`, nothing is on its way, and the sender sends nothing however long it waits. -/
structure Stuck (s : Timed) : Prop where
  ended : s.ended = false
  sender : (∃ i data, s.net.sender = .waiting i data ∧ ¬ s.Armed) ∨ s.net.sender = .goodbye
  server : s.net.server.phase = .outer ∨ ∃ i receiver name fd, s.net.server.phase = .inner i receiver name fd
  toServer : s.net.toServer = []
  toSender : s.net.toSender = []

/-- The server drops the one packet on its way, which the sender will not send again. -/
structure Strands (s : Timed) (e : NetEvent) : Prop where
  drop : ∃ n randNum, e = .receive n randNum ∧ ¬ 5 < randNum
  ended : s.ended = false
  sender : ∃ i data, s.net.sender = .waiting i data ∧ ¬ s.Armed
  toServer : s.net.toServer.length = 1
  toSender : s.net.toSender = []

end Timed

/-! ### The goodbye message -/

/-- The goodbye message starts as it should. -/
private theorem Server.finish_prefix {s server : Server} {goodbye : Bytes} (h : s.finish = some (server, goodbye)) :
    endOfFile <+: goodbye := by
  cases hphase : s.phase with
  | ending name =>
    simp only [Server.finish, hphase] at h
    obtain ⟨buffer, hcopy, h⟩ := Option.bind_eq_some_iff.1 h
    cases h
    have hnul := nul_not_mem_endOfFile (nulFree_cstr name.bytes)
    simp only [CArray.strcpy, cstr_append_nul hnul, Option.dite_none_right_eq_some, Option.some.injEq] at hcopy
    obtain ⟨hroom, rfl⟩ := hcopy
    rw [message, CArray.bytes_write_zero, List.append_assoc _ [0], List.singleton_append, cstr_append_nul hnul,
      List.append_assoc, List.append_assoc]
    exact List.prefix_append _ _
  | _ =>
    simp only [Server.finish, hphase] at h
    cases h

/-! ### Counting -/

/-- The server has accepted `k` packets, whichever they were, and has not sent the goodbye message. -/
inductive Counting (u : Upload) (s : Server) : Nat → Prop
  | nothing (phase : s.phase = .outer) : Counting u s 0
  | packets {k : Nat} {receiver : Packet} {name : CArray nameLength} {fd : Fd} (pos : 0 < k)
      (count : s.totalFrag = UInt32.ofNat u.total) (phase : s.phase = Server.loop s.totalFrag k receiver name fd) :
      Counting u s k

section Counting

variable {u : Upload} {s : Server} {k i randNum : Nat} {turn : Turn}

theorem Counting.receive (h : Counting u s k) (hk : k ≤ u.total) (hi : i < u.total) (hkept : 5 < randNum)
    (hturn : s.receive (u.datagram i) randNum = some turn) :
    k < u.total ∧ Counting u turn.server (k + 1) ∧ turn.replies.length = 1 ∧ turn.wrote.isSome := by
  cases h with
  | nothing phase =>
    obtain ⟨receiver, name, hr, hreceive⟩ := Server.receive_outer u i phase hkept
    obtain rfl := Option.some.inj (hreceive.symm.trans hturn)
    exact ⟨by omega, .packets Nat.one_pos hr.totalFrag rfl, rfl, rfl⟩
  | packets pos count phase =>
    rw [count, loop_total] at phase
    by_cases hlt : k < u.total
    · rw [if_pos hlt] at phase
      obtain ⟨receiver, name, hr, hreceive⟩ := Server.receive_inner u i phase hkept
      obtain rfl := Option.some.inj (hreceive.symm.trans hturn)
      exact ⟨hlt, .packets (Nat.succ_pos k) count rfl, rfl, rfl⟩
    · rw [if_neg hlt] at phase
      simp only [Server.receive, phase] at hturn
      cases hturn

/-- Before that, a packet can be dropped. -/
theorem Counting.receive_dropped (h : Counting u s k) (hk : k < u.total) (d : Bytes) (hdrop : ¬ 5 < randNum) :
    s.receive d randNum = some ⟨s, [], none⟩ := by
  cases h with
  | nothing phase => simp only [Server.receive, phase, hdrop, if_false]
  | packets pos count phase =>
    rw [count, loop_total, if_pos hk] at phase
    simp only [Server.receive, phase, hdrop, if_false]

/-- With all of them accepted, the server is behind the loop. -/
theorem Counting.ending (h : Counting u s k) (hk : u.total ≤ k) (hpos : 0 < u.total) : ∃ name, s.phase = .ending name := by
  cases h with
  | nothing phase => omega
  | @packets _ receiver name fd pos count phase =>
    rw [count, loop_total, if_neg (by omega)] at phase
    exact ⟨name, phase⟩

end Counting

/-- The goodbye message has not been sent, and every acknowledgement has been heard or is on its way. -/
structure Counted (u : Upload) (s : Net) : Prop where
  sending : s.SendsFile u
  toServer : ∀ d ∈ s.toServer, ∃ j < u.total, d = u.datagram j
  accepted_le : s.accepted ≤ u.total
  heard : s.sender.heard u.total + s.toSender.length = s.accepted
  server : Counting u s.server s.accepted

/-- The goodbye message is on its way. -/
def Net.SaysGoodbye (s : Net) : Prop := ∃ message ∈ s.toSender, endOfFile <+: message

section Steps

variable {u : Upload} {s t : Net} {e : NetEvent} {n randNum : Nat}

theorem Net.Begins.counted (h : s.Begins u) : Counted u s := by
  obtain ⟨hsending, hheard⟩ := h.sendsFile
  refine ⟨hsending, by simp [h.toServer], by simp [h.accepted], ?_, h.accepted ▸ .nothing h.outer⟩
  rw [hheard, h.toSender, h.accepted]
  rfl

theorem Counted.send (hc : Counted u s) (h : s.next u .send = some t) : Counted u t := by
  obtain ⟨hsending, hheard, i, hi, -, rfl⟩ := hc.sending.send h
  refine ⟨hsending, ?_, hc.accepted_le, by rw [hheard]; exact hc.heard, hc.server⟩
  intro d hd
  rcases List.mem_append.1 hd with hd | hd
  · exact hc.toServer d hd
  · exact ⟨i, hi, List.mem_singleton.1 hd⟩

theorem Counted.timeout (hc : Counted u s) (h : s.next u .timeout = some t) : Counted u t := by
  obtain ⟨hsending, hheard, ht⟩ := hc.sending.timeout h
  have hcount := hc.heard
  rw [← hheard] at hcount
  rw [ht] at hsending ⊢
  exact ⟨hsending, hc.toServer, hc.accepted_le, hcount, hc.server⟩

theorem Counted.hear (hc : Counted u s) (h : s.next u (.hear n) = some t) : Counted u t := by
  obtain ⟨hsending, hheard, hn, ht⟩ := hc.sending.hear h
  have hcount := hc.heard
  rw [ht] at hsending ⊢
  refine ⟨hsending, hc.toServer, hc.accepted_le, ?_, hc.server⟩
  show t.sender.heard u.total + (s.toSender.eraseIdx n).length = s.accepted
  rw [List.length_eraseIdx_of_lt hn]
  omega

theorem Counted.receive (hc : Counted u s) (h : s.next u (.receive n randNum) = some t) : Counted u t := by
  obtain ⟨d, turn, hd, hturn, rfl⟩ := Net.next_receive_iff.1 h
  have hto : ∀ d ∈ s.toServer.eraseIdx n, ∃ j < u.total, d = u.datagram j :=
    fun d hd => hc.toServer d (List.eraseIdx_subset hd)
  have hheard := hc.heard
  by_cases hkept : 5 < randNum
  · obtain ⟨j, hj, rfl⟩ := hc.toServer d (List.mem_of_getElem? hd)
    obtain ⟨hlt, hserver, hreplies, hwrote⟩ := hc.server.receive hc.accepted_le hj hkept hturn
    obtain ⟨data, hdata⟩ := Option.isSome_iff_exists.1 hwrote
    have haccepted : s.accepted + turn.wrote.toList.length = s.accepted + 1 := by rw [hdata]; rfl
    refine ⟨hc.sending, hto, ?_, ?_, ?_⟩
    · show s.accepted + turn.wrote.toList.length ≤ u.total
      omega
    · show s.sender.heard u.total + (s.toSender ++ turn.replies).length = s.accepted + turn.wrote.toList.length
      rw [List.length_append]
      omega
    · show Counting u turn.server (s.accepted + turn.wrote.toList.length)
      rw [haccepted]
      exact hserver
  · obtain rfl := Server.receive_dropped hkept hturn
    refine ⟨hc.sending, hto, hc.accepted_le, ?_, hc.server⟩
    show s.sender.heard u.total + (s.toSender ++ []).length = s.accepted
    rw [List.append_nil, hheard]

private theorem Net.saysGoodbye_of_finish (h : s.next u .finish = some t) : t.SaysGoodbye := by
  obtain ⟨server, goodbye, hfinish, rfl⟩ := Net.next_finish_iff.1 h
  exact ⟨goodbye, List.mem_append_right _ (List.mem_singleton_self _), Server.finish_prefix hfinish⟩

/-- The goodbye message stays on its way until it is heard. -/
theorem Net.SaysGoodbye.step (hs : s.SaysGoodbye) (hloss : ∀ n, e ≠ .loseReply n)
    (hhear : ∀ n message, e = .hear n → s.toSender[n]? = some message → ¬ endOfFile <+: message)
    (h : s.next u e = some t) : t.SaysGoodbye := by
  obtain ⟨message, hmem, hprefix⟩ := hs
  cases e with
  | send =>
    simp only [next] at h
    split at h
    · cases h
      exact ⟨message, hmem, hprefix⟩
    · cases h
  | timeout =>
    simp only [next] at h
    split at h
    · cases h
      exact ⟨message, hmem, hprefix⟩
    · cases h
      exact ⟨message, hmem, hprefix⟩
    · cases h
  | hear n =>
    obtain ⟨heard, phase, hheard, -, rfl⟩ := next_hear_iff.1 h
    obtain ⟨i, hi⟩ := List.mem_iff_getElem?.1 hmem
    refine ⟨message, List.mem_eraseIdx_iff_getElem?.2 ⟨i, ?_, hi⟩, hprefix⟩
    rintro rfl
    exact hhear _ _ rfl hi hprefix
  | receive n randNum =>
    obtain ⟨d, turn, -, -, rfl⟩ := next_receive_iff.1 h
    exact ⟨message, List.mem_append_left _ hmem, hprefix⟩
  | finish => exact saysGoodbye_of_finish h
  | losePacket n =>
    simp only [next, Option.ite_none_right_eq_some, Option.some.injEq] at h
    obtain ⟨-, rfl⟩ := h
    exact ⟨message, hmem, hprefix⟩
  | loseReply n => exact absurd rfl (hloss n)

end Steps

/-! ### The timer -/

namespace Timed

section Timer

variable {u : Upload} {s t : Timed} {e : NetEvent} {ticks n : Nat}

@[simp] theorem setTimeout_net (s : Timed) : s.setTimeout.net = s.net := by
  unfold setTimeout
  split <;> rfl

@[simp] theorem setTimeout_ended (s : Timed) : s.setTimeout.ended = s.ended := by
  unfold setTimeout
  split <;> rfl

@[simp] theorem hear_net (s : Timed) (net : Net) (message : Bytes) (ticks : Nat) : (s.hear net message ticks).net = net := by
  rw [hear, setTimeout_net]

@[simp] theorem hear_ended (s : Timed) (net : Net) (message : Bytes) (ticks : Nat) :
    (s.hear net message ticks).ended = (s.ended || endOfFile.isPrefixOf message) := by
  rw [hear, setTimeout_ended]

private theorem next_send (u : Upload) (s : Timed) (ticks : Nat) :
    s.next u ticks .send = (s.net.next u .send).map fun net => { s with net := net } := rfl

theorem next_receive (u : Upload) (s : Timed) (ticks n randNum : Nat) :
    s.next u ticks (.receive n randNum) = (s.net.next u (.receive n randNum)).map fun net => { s with net := net } := rfl

/-- With its timer, `deliver` takes the steps that it takes without. -/
private theorem next_net (h : s.next u ticks e = some t) : s.net.next u e = some t.net := by
  cases e with
  | timeout =>
    simp only [next, Option.ite_none_right_eq_some] at h
    obtain ⟨net, hnet, rfl⟩ := Option.map_eq_some_iff.1 h.2
    exact hnet
  | hear n =>
    obtain ⟨message, -, h⟩ := Option.bind_eq_some_iff.1 h
    obtain ⟨net, hnet, h⟩ := Option.bind_eq_some_iff.1 h
    cases h
    rw [hear_net]
    exact hnet
  | losePacket n => cases h
  | loseReply n => cases h
  | _ =>
    obtain ⟨net, hnet, rfl⟩ := Option.map_eq_some_iff.1 h
    exact hnet

/-- Only what is heard changes the timer and the history. -/
private theorem next_of_ne_hear (he : ∀ n, e ≠ .hear n) (h : s.next u ticks e = some t) :
    t = { s with net := t.net } := by
  cases e with
  | timeout =>
    simp only [next, Option.ite_none_right_eq_some] at h
    obtain ⟨net, -, rfl⟩ := Option.map_eq_some_iff.1 h.2
    rfl
  | hear n => exact absurd rfl (he n)
  | losePacket n => cases h
  | loseReply n => cases h
  | _ =>
    obtain ⟨net, -, rfl⟩ := Option.map_eq_some_iff.1 h
    rfl

/-- The transfer has not ended before, and what has just been heard is not the end-of-transfer message. -/
private theorem next_ended (h : s.next u ticks e = some t) (ht : t.ended = false) :
    s.ended = false ∧ ∀ n message, e = .hear n → s.net.toSender[n]? = some message → ¬ endOfFile <+: message := by
  by_cases he : ∃ n, e = .hear n
  · obtain ⟨n, rfl⟩ := he
    obtain ⟨message, hmessage, h⟩ := Option.bind_eq_some_iff.1 h
    obtain ⟨net, -, h⟩ := Option.bind_eq_some_iff.1 h
    cases h
    rw [hear_ended, Bool.or_eq_false_iff] at ht
    refine ⟨ht.1, ?_⟩
    rintro _ message' ⟨⟩ hmessage' hprefix
    obtain rfl : message = message' := Option.some.inj (hmessage.symm.trans hmessage')
    rw [List.isPrefixOf_iff_prefix.2 hprefix] at ht
    exact Bool.noConfusion ht.2
  · have he' : ∀ n, e ≠ .hear n := not_exists.1 he
    rw [next_of_ne_hear he' h] at ht
    exact ⟨ht, fun n _ hn => absurd hn (he' n)⟩

/-- While the sender waits for an acknowledgement, its timer is on or something is on its way. -/
def Moving (s : Timed) : Prop :=
  ∀ i data, s.net.sender = .waiting i data → s.Armed ∨ s.net.toServer ≠ [] ∨ s.net.toSender ≠ []

private theorem nextFragment_ne_waiting {i j : Nat} {data : Bytes} : u.nextFragment i ≠ some (.waiting j data) := by
  intro h
  by_cases hi : i < u.total
  · rw [Upload.nextFragment_of_lt u.count_lt hi] at h
    cases h
  · rw [Upload.nextFragment_of_le (Nat.not_lt.1 hi)] at h
    cases h

private theorem hear_ne_waiting {phase : SenderPhase} {i : Nat} {data : Bytes} :
    u.hear phase ≠ some (.waiting i data) := by
  intro h
  cases phase with
  | waiting j data' => exact nextFragment_ne_waiting h
  | _ => cases h

private theorem moving_of_receive {randNum : Nat} (hended : s.ended = false)
    (hstrands : ¬ s.Strands (.receive n randNum)) (hc : Counted u s.net)
    (h : s.next u ticks (.receive n randNum) = some t) : t.Moving := by
  have hnet := next_net h
  rw [next_of_ne_hear (by intro n hn; cases hn) h]
  obtain ⟨d, turn, hd, hturn, hnet⟩ := Net.next_receive_iff.1 hnet
  obtain ⟨hn, -⟩ := List.getElem?_eq_some_iff.1 hd
  rw [hnet]
  intro i data hwaiting
  by_cases hkept : 5 < randNum
  · obtain ⟨j, hj, rfl⟩ := hc.toServer d (List.mem_of_getElem? hd)
    obtain ⟨-, -, hreplies, -⟩ := hc.server.receive hc.accepted_le hj hkept hturn
    refine Or.inr (Or.inr fun hnil => ?_)
    rw [(List.append_eq_nil_iff.1 hnil).2] at hreplies
    cases hreplies
  · obtain rfl := Server.receive_dropped hkept hturn
    by_cases harmed : s.Armed
    · exact Or.inl harmed
    · -- the datagram that is dropped is not the only one on its way
      refine Or.inr (not_and_or.1 fun hnil => hstrands ⟨⟨n, randNum, rfl, hkept⟩, hended, ⟨i, data, hwaiting, harmed⟩, ?_, ?_⟩)
      · have hlen := congrArg List.length hnil.1
        rw [List.length_eraseIdx_of_lt hn, List.length_nil] at hlen
        omega
      · exact (List.append_eq_nil_iff.1 hnil.2).1

private theorem moving_of_step (hended : s.ended = false) (hstrands : ¬ s.Strands e) (hc : Counted u s.net)
    (h : s.next u ticks e = some t) : t.Moving := by
  have hnet := next_net h
  cases e with
  | send =>
    obtain ⟨-, -, i, -, -, ht⟩ := hc.sending.send hnet
    rw [next_of_ne_hear (by intro n hn; cases hn) h, ht]
    exact fun _ _ _ => Or.inr (Or.inl (List.append_ne_nil_of_right_ne_nil _ (List.cons_ne_nil _ _)))
  | timeout =>
    intro i data hwaiting
    have harmed : s.Armed := by
      simp only [next, Option.ite_none_right_eq_some] at h
      exact h.1
    rw [next_of_ne_hear (by intro n hn; cases hn) h]
    exact Or.inl harmed
  | hear n =>
    intro i data hwaiting
    obtain ⟨reply, phase, -, hphase, hnet⟩ := Net.next_hear_iff.1 hnet
    rw [hnet] at hwaiting
    obtain rfl : phase = .waiting i data := hwaiting
    exact (hear_ne_waiting hphase).elim
  | receive n randNum => exact moving_of_receive hended hstrands hc h
  | finish =>
    intro i data hwaiting
    obtain ⟨message, hmem, -⟩ := Net.saysGoodbye_of_finish hnet
    exact Or.inr (Or.inr (List.ne_nil_of_mem hmem))
  | losePacket n => cases h
  | loseReply n => cases h

end Timer

/-! ### Being stuck -/

section Stuck

variable {u : Upload} {s t : Timed} {e : NetEvent} {ticks n : Nat}

/-- The drop leaves both sides waiting. -/
theorem Strands.stuck (hs : s.Strands e) (h : s.next u ticks e = some t) : t.Stuck := by
  obtain ⟨n, randNum, rfl, hdrop⟩ := hs.drop
  have hnet := next_net h
  rw [next_of_ne_hear (by intro n hn; cases hn) h]
  obtain ⟨d, turn, hd, hturn, hnet⟩ := Net.next_receive_iff.1 hnet
  obtain ⟨hn, -⟩ := List.getElem?_eq_some_iff.1 hd
  obtain rfl := Server.receive_dropped hdrop hturn
  rw [hnet]
  have hone := hs.toServer
  constructor
  · exact hs.ended
  · exact Or.inl hs.sender
  · show s.net.server.phase = .outer ∨ _
    cases hphase : s.net.server.phase with
    | outer => exact Or.inl rfl
    | inner i receiver name fd => exact Or.inr ⟨i, receiver, name, fd, rfl⟩
    | _ =>
      simp only [Server.receive, hphase] at hturn
      cases hturn
  · refine List.eq_nil_of_length_eq_zero ?_
    rw [List.length_eraseIdx_of_lt hn]
    omega
  · show s.net.toSender ++ [] = []
    rw [hs.toSender, List.append_nil]

/-- The invariant of the runs in which the server strands nobody. -/
structure Live (u : Upload) (s : Timed) : Prop where
  counted : Counted u s.net
  moving : s.Moving

theorem Live.not_stuck (hl : Live u s) (hpos : 0 < u.total) : ¬ s.Stuck := by
  intro hs
  have hheard := hl.counted.heard
  rcases hs.sender with ⟨i, data, hwaiting, harmed⟩ | hgoodbye
  · rcases hl.moving i data hwaiting with harmed' | hto | hto
    · exact harmed harmed'
    · exact hto hs.toServer
    · exact hto hs.toSender
  · -- the sender has heard of every packet, so the server is about to send the goodbye message
    rw [hgoodbye, hs.toSender] at hheard
    obtain ⟨name, hending⟩ := hl.counted.server.ending hheard.le hpos
    rcases hs.server with houter | ⟨i, receiver, name, fd, hinner⟩
    · rw [houter] at hending
      cases hending
    · rw [hinner] at hending
      cases hending

theorem Begins.live (h : s.Begins u) : Live u s := by
  refine ⟨h.net.counted, fun i data hwaiting => ?_⟩
  have hsender := h.net.sender
  rw [hwaiting] at hsender
  exact absurd hsender nextFragment_ne_waiting

theorem Live.step (hl : Live u s) (hended : s.ended = false) (hstrands : ¬ s.Strands e)
    (h : s.next u ticks e = some t) : t.net.SaysGoodbye ∨ Live u t := by
  have hnet := next_net h
  have hmoving := moving_of_step hended hstrands hl.counted h
  cases e with
  | send => exact Or.inr ⟨hl.counted.send hnet, hmoving⟩
  | timeout => exact Or.inr ⟨hl.counted.timeout hnet, hmoving⟩
  | hear n => exact Or.inr ⟨hl.counted.hear hnet, hmoving⟩
  | receive n randNum => exact Or.inr ⟨hl.counted.receive hnet, hmoving⟩
  | finish => exact Or.inl (Net.saysGoodbye_of_finish hnet)
  | losePacket n => cases h
  | loseReply n => cases h

/-- The runs in which no drop strands the sender. -/
def Unstranded (s : Timed) (e : NetEvent × Nat) : Prop := ¬ s.Strands e.1

/-- As long as the goodbye message has not been heard, it is on its way or the transfer is live. -/
theorem live_of_reachable (hr : Reachable ((timed u).when Unstranded) s) :
    s.ended = false → s.net.SaysGoodbye ∨ Live u s := by
  induction hr with
  | init h => exact fun _ => Or.inr h.live
  | @step s t e _ hst ih =>
    obtain ⟨hstrands, h⟩ := hst
    intro hended
    obtain ⟨hended', hheard⟩ := next_ended h hended
    rcases ih hended' with hgoodbye | hlive
    · refine Or.inl (hgoodbye.step ?_ hheard (next_net h))
      intro n hn
      have hlost : s.next u e.2 e.1 = some t := h
      rw [hn] at hlost
      cases hlost
    · exact hlive.step hended' hstrands h

theorem not_stuck_of_reachable (hr : Reachable ((timed u).when Unstranded) s) (hpos : 0 < u.total) : ¬ s.Stuck := by
  intro hs
  rcases live_of_reachable hr hs.ended with ⟨message, hmem, -⟩ | hlive
  · rw [hs.toSender] at hmem
    cases hmem
  · exact hlive.not_stuck hpos hs

/-- Without a packet to send, both sides wait from the start. -/
private theorem stuck_of_counted (hc : Counted u s.net) (htotal : u.total = 0) (hended : s.ended = false) :
    s.Stuck := by
  have hle := hc.accepted_le
  have hheard := hc.heard
  have hzero : s.net.accepted = 0 := by omega
  constructor
  · exact hended
  · right
    cases hphase : s.net.sender with
    | goodbye => rfl
    | finished =>
      rw [hphase, SenderPhase.heard] at hheard
      omega
    | sending i data =>
      have := (hc.sending i data (Or.inl hphase)).1
      omega
    | waiting i data =>
      have := (hc.sending i data (Or.inr hphase)).1
      omega
  · have hserver := hc.server
    rw [hzero] at hserver
    cases hserver with
    | nothing phase => exact Or.inl phase
    | packets pos => exact absurd pos (lt_irrefl 0)
  · refine List.eq_nil_iff_forall_not_mem.2 fun d hd => ?_
    -- a datagram on its way would be one of the `u.total` packets
    obtain ⟨j, hj, -⟩ := hc.toServer d hd
    omega
  · exact List.eq_nil_of_length_eq_zero (by omega)

private theorem stuck_of_empty (hr : Reachable (timed u) s) (htotal : u.total = 0) : s.Stuck := by
  have hinv : Counted u s.net ∧ s.ended = false := by
    refine hr.invariant (P := fun s => Counted u s.net ∧ s.ended = false) (fun s h => ⟨h.net.counted, h.ended⟩) ?_
    rintro s ⟨e, ticks⟩ t - ⟨hc, hended⟩ h
    have hs := stuck_of_counted hc htotal hended
    have hnet := next_net h
    cases e with
    | send => exact ⟨hc.send hnet, by rw [next_of_ne_hear (by intro n hn; cases hn) h]; exact hended⟩
    | timeout => exact ⟨hc.timeout hnet, by rw [next_of_ne_hear (by intro n hn; cases hn) h]; exact hended⟩
    | receive n randNum => exact ⟨hc.receive hnet, by rw [next_of_ne_hear (by intro n hn; cases hn) h]; exact hended⟩
    | hear n =>
      obtain ⟨-, -, hn, -⟩ := hc.sending.hear hnet
      rw [hs.toSender] at hn
      cases hn
    | finish =>
      -- the server has not left its first `recvfrom`, or waits for another packet
      obtain ⟨server, goodbye, hfinish, -⟩ := Net.next_finish_iff.1 hnet
      rcases hs.server with houter | ⟨i, receiver, name, fd, hinner⟩
      · simp only [Server.finish, houter] at hfinish
        cases hfinish
      · simp only [Server.finish, hinner] at hfinish
        cases hfinish
    | losePacket n => cases h
    | loseReply n => cases h
  exact stuck_of_counted hinv.1 htotal hinv.2

end Stuck

end Timed

private theorem Upload.total_pos_iff (u : Upload) : 0 < u.total ↔ u.file ≠ [] := by
  rw [Upload.lt_total u.count_lt, Nat.mul_zero, List.length_pos_iff]

/-- A transfer never gets stuck exactly when its file is not empty and no drop strands the sender; a drop that does leaves
it stuck at once. -/
theorem no_stuck_transfer {u : Upload} {s : Timed} (hr : Reachable ((timed u).when Timed.Unstranded) s) :
    (¬ s.Stuck ↔ u.file ≠ []) ∧
      (u.file ≠ [] → ∀ e t, (timed u).step s e t → (¬ t.Stuck ↔ Timed.Unstranded s e)) := by
  constructor
  · rw [← u.total_pos_iff]
    constructor
    · intro hs
      by_contra hzero
      exact hs (Timed.stuck_of_empty hr.of_when (by omega))
    · exact Timed.not_stuck_of_reachable hr
  · intro hfile e t h
    constructor
    · exact fun hs hstrands => hs (hstrands.stuck h)
    · exact fun hunstranded => Timed.not_stuck_of_reachable (.step hr ⟨hunstranded, h⟩) (u.total_pos_iff.2 hfile)

/-- A file of no bytes. -/
def nothing : Upload where
  file := []
  name := ⟨ascii "nothing", by decide, by decide⟩
  total := 0
  counted := by
    have hceil : ⌈((0 : ℕ) : ℚ) / fileFragSize⌉ = 0 := by simp
    rw [List.length_nil, totalFrag_eq (by rw [hceil]; norm_num), hceil]
    rfl

/-- `deliver` begins with a server that has just started. -/
def Timed.start (sender : SenderPhase) : Timed where
  net := ⟨sender, ⟨.outer, 0, fun _ => none⟩, [], [], [], 0, false⟩
  estimatedRTT := 0
  devRTT := 0
  timeInterval := 0
  tvSec := 1
  tvUsec := 0
  ended := false

private theorem Timed.begins_start {u : Upload} {sender : SenderPhase} (h : u.nextFragment 0 = some sender) :
    (Timed.start sender).Begins u :=
  ⟨⟨h, rfl, rfl, rfl, rfl, rfl, rfl⟩, rfl, rfl, fun _ => ⟨rfl, rfl⟩, rfl⟩

/-- The server drops the first packet, and `deliver` waits with its timer armed. -/
theorem no_stuck_transfer_letters : ∃ s, Reachable ((timed letters).when Timed.Unstranded) s ∧
    s.net.sender = .waiting 0 (letters.datagram 0) ∧ s.net.toServer = [] ∧ s.net.toSender = [] ∧ s.Armed ∧ ¬ s.Stuck ∧
    ∀ e t, (timed letters).step s e t → (¬ t.Stuck ↔ Timed.Unstranded s e) := by
  let start := Timed.start (.sending 0 (letters.datagram 0))
  let sent : Timed := { start with net := { lettersSent 1 with server := start.net.server } }
  let waiting : Timed := { sent with net := { sent.net with toServer := [], dropped := true } }
  have hstart : Reachable ((timed letters).when Timed.Unstranded) start :=
    .init (Timed.begins_start (Upload.nextFragment_of_lt letters_count Nat.two_pos))
  have hsent : Reachable ((timed letters).when Timed.Unstranded) sent := by
    refine .step hstart (e := (.send, 0)) ⟨?_, rfl⟩
    rintro ⟨⟨_, _, he, -⟩, -⟩
    cases he
  have hwaiting : Reachable ((timed letters).when Timed.Unstranded) waiting := by
    refine .step hsent (e := (.receive 0 1, 0)) ⟨?_, rfl⟩
    rintro ⟨-, -, ⟨_, _, -, harmed⟩, -⟩
    exact harmed (Or.inl (by decide))
  have hfile : letters.file ≠ [] := by
    intro hempty
    have hlen := congrArg List.length hempty
    rw [length_letters] at hlen
    cases hlen
  obtain ⟨hiff, hstep⟩ := no_stuck_transfer hwaiting
  exact ⟨waiting, hwaiting, rfl, rfl, rfl, Or.inl (by decide), hiff.2 hfile, hstep hfile⟩

/-- A first round trip that takes no tick turns the timer off. -/
private theorem Timed.not_armed_hear {s : Timed} {net : Net} {data data' message : Bytes} {i : Nat}
    (hs : s.net.sender = .waiting 0 data) (hnet : net.sender = .sending (i + 1) data') :
    ¬ (s.hear net message 0).Armed := by
  simp only [hear, hs, measure, setTimeout, hnet, Armed]
  simp [truncate]

/-- The first acknowledgement is heard within the tick in which the packet was sent, and the server drops the second
packet. -/
private theorem Timed.stuck_of_two_fragments {u : Upload} (h : 1 < u.total) : ∃ s, Reachable (timed u) s ∧ s.Stuck := by
  let first := u.datagram 0
  let second := u.datagram 1
  let reply := ackText (fillTheAck 0 1 recevd) ++ [0]
  let start := Timed.start (.sending 0 first)
  let sent : Timed := { start with net := ⟨.waiting 0 first, start.net.server, [first], [], [], 0, false⟩ }
  have hstart : Reachable (timed u) start := .init (begins_start (Upload.nextFragment_of_lt u.count_lt (by omega)))
  have hsent : Reachable (timed u) sent := .step hstart (e := (.send, 0)) rfl
  obtain ⟨receiver, name, hr, hreceive⟩ := Server.receive_outer u 0 (s := start.net.server) rfl (show 5 < 100 by decide)
  obtain ⟨server, hreceive, hserver⟩ : ∃ server, start.net.server.receive first 100 =
      some ⟨server, [reply], some (u.received 0)⟩ ∧ Counting u server 1 :=
    ⟨_, hreceive, .packets Nat.one_pos hr.totalFrag rfl⟩
  let answered : Timed := { start with net := ⟨.waiting 0 first, server, [], [reply], u.received 0, 1, false⟩ }
  have hanswered : Reachable (timed u) answered := by
    refine .step hsent (e := (.receive 0 100, 0)) ?_
    show sent.next u 0 (.receive 0 100) = some answered
    rw [next_receive, Net.next_receive (show sent.net.toServer[0]? = some first from rfl) hreceive]
    rfl
  let net : Net := ⟨.sending 1 second, server, [], [], u.received 0, 1, false⟩
  have hheard : Reachable (timed u) (answered.hear net reply 0) := by
    have hhear : u.hear (.waiting 0 first) = some (.sending 1 second) := Upload.nextFragment_of_lt u.count_lt h
    have hnet : answered.net.next u (.hear 0) = some net := Net.next_hear rfl hhear
    refine .step hanswered (e := (.hear 0, 0)) ?_
    show (answered.net.next u (.hear 0)).bind _ = _
    rw [hnet]
    rfl
  let resent : Timed := { answered.hear net reply 0 with net := { net with sender := .waiting 1 second, toServer := [second] } }
  have hresent : Reachable (timed u) resent := by
    refine .step hheard (e := (.send, 0)) ?_
    show (answered.hear net reply 0).next u 0 .send = some resent
    rw [next_send, hear_net]
    rfl
  have hended : (answered.hear net reply 0).ended = false := by
    rw [hear_ended]
    rfl
  have hunarmed : ¬ resent.Armed := not_armed_hear (show answered.net.sender = .waiting 0 first from rfl)
    (show net.sender = .sending (0 + 1) second from rfl)
  have hstrands : resent.Strands (.receive 0 1) :=
    ⟨⟨0, 1, rfl, by decide⟩, hended, ⟨1, second, rfl, hunarmed⟩, rfl, rfl⟩
  have hdrop := Net.next_receive (u := u) (n := 0) (show resent.net.toServer[0]? = some second from rfl)
    (hserver.receive_dropped h second (show ¬ 5 < 1 by decide))
  have hnext := (next_receive u resent 0 0 1).trans (congrArg (Option.map fun net => { resent with net := net }) hdrop)
  exact ⟨_, .step hresent (e := (.receive 0 1, 0)) hnext, hstrands.stuck hnext⟩

/-- Nothing is sent for an empty file, and any file of two fragments can get stuck. -/
theorem no_stuck_transfer_fails : (∃ s, Reachable (timed nothing) s ∧ s.Stuck) ∧
    ∃ s, Reachable (timed letters) s ∧ s.Stuck := by
  constructor
  · have hstart : Reachable (timed nothing) (.start .goodbye) :=
      .init (Timed.begins_start (Upload.nextFragment_of_le le_rfl))
    exact ⟨_, hstart, Timed.stuck_of_empty hstart rfl⟩
  · exact Timed.stuck_of_two_fragments Nat.one_lt_two

end FileTransfer
