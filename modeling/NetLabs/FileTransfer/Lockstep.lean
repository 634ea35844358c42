import NetLabs.FileTransfer.LateAcks

/-!
# Stop and wait

Over a channel that keeps every datagram and its order, with a timer that waits for a drop (`InOrder`), at most one
packet is on its way, and it is one that the server has not accepted (`InStep`).  So these runs are among those of
`Safe`, whatever the server drops, and the two loop counters stay in step.
-/

namespace FileTransfer

open CText Transition

/-- Nothing is lost or overtaken, and the timer fires when the server has dropped the packet that is waited on. -/
def InOrder (s : Net) : NetEvent → Prop
  | .send => True
  | .timeout => s.dropped = true ∨ s.sender = .goodbye
  | .hear n => n = 0
  | .receive n _ => n = 0
  | .finish => True
  | .losePacket _ => False
  | .loseReply _ => False

/-- The fragment that is being sent. -/
def SenderPhase.current : SenderPhase → Option Nat
  | .sending i _ => some i
  | .waiting i _ => some i
  | _ => none

/-- The loops of the two sides stay in step.  The fragments count from 0 here, from 1 in the packets. -/
structure Lockstep (u : Upload) (s : Net) : Prop where
  written : s.written = (List.range s.accepted).flatMap u.fragment
  current : ∀ i, s.sender.current = some i → i + 1 = s.accepted ∨ i + 1 = s.accepted + 1
  left : s.server.Left s.accepted → s.accepted = s.server.totalFrag.toNat ∧
    (s.accepted : ℤ) = ⌈(u.file.length : ℚ) / fileFragSize⌉ ∧ s.written = u.file

/-- Where the one packet is. -/
inductive InStep (u : Upload) (s : Net) : Prop
  | ready {i : Nat} {data : Bytes} (sender : s.sender = .sending i data) (toServer : s.toServer = [])
      (accepted : s.accepted = i)
  | underWay {i : Nat} {data : Bytes} (sender : s.sender = .waiting i data) (toServer : s.toServer = [u.datagram i])
      (accepted : s.accepted = i) (dropped : s.dropped = false)
  | lost {i : Nat} {data : Bytes} (sender : s.sender = .waiting i data) (toServer : s.toServer = [])
      (accepted : s.accepted = i)
  | answered {i : Nat} {data : Bytes} (sender : s.sender = .waiting i data) (toServer : s.toServer = [])
      (accepted : s.accepted = i + 1) (dropped : s.dropped = false)
  | ended (sender : s.sender = .goodbye ∨ s.sender = .finished) (toServer : s.toServer = [])

section Steps

variable {u : Upload} {s t : Net} {e : NetEvent} {i j n randNum : Nat}

/-- The packet under way is new to the server. -/
private theorem InStep.keepsNew (hcount : ⌈(u.file.length : ℚ) / fileFragSize⌉ < 2 ^ 31)
    (hs : Safe u s) (hin : InStep u s) (ho : InOrder s e) : KeepsNew u s e := by
  cases e with
  | receive n randNum =>
    obtain rfl : n = 0 := ho
    rintro - j hj hd
    cases hin with
    | underWay sender toServer accepted =>
      rw [toServer] at hd
      have htotal := Upload.total_lt hcount
      have hle := hs.accepted_le_total
      have := u.datagram_injective (by omega) (by omega) (Option.some.inj hd)
      omega
    | _ =>
      rename_i toServer _
      simp_all
  | _ => trivial

/-- The sender only hears from the server when its packet has been accepted. -/
private theorem Safe.accepted_of_reply (hs : Safe u s) {data : Bytes} (hsender : s.sender = .waiting i data)
    (hreply : 0 < s.toSender.length) : s.accepted = i + 1 := by
  have hi := (hs.sending i data (Or.inr hsender)).1
  have hpos : s.sender.position u.total = i := by rw [hsender]; rfl
  have hle := hs.position_le
  have hge := hs.accepted_le
  have := hs.replies
  omega

private theorem Net.Begins.inStep (hcount : ⌈(u.file.length : ℚ) / fileFragSize⌉ < 2 ^ 31) (h : s.Begins u) :
    InStep u s := by
  have hnext := h.sender
  rcases Nat.eq_zero_or_pos u.total with hzero | hpos
  · rw [Upload.nextFragment_of_le hzero.le, Option.some.injEq] at hnext
    exact .ended (Or.inl hnext.symm) h.toServer
  · rw [Upload.nextFragment_of_lt hcount hpos, Option.some.injEq] at hnext
    exact .ready hnext.symm h.toServer h.accepted

theorem InStep.step (hcount : ⌈(u.file.length : ℚ) / fileFragSize⌉ < 2 ^ 31) (hcolon : colon ∉ u.name.bytes)
    (hs : Safe u s) (hin : InStep u s) (ho : InOrder s e) (h : s.next u e = some t) : InStep u t := by
  cases e with
  | send =>
    cases hin with
    | ready sender toServer accepted =>
      obtain ⟨-, rfl⟩ := hs.sending _ _ (Or.inl sender)
      simp only [Net.next, sender, toServer, Option.some.injEq] at h
      subst h
      exact .underWay rfl rfl accepted rfl
    | ended sender => rcases sender with sender | sender <;> (simp only [Net.next, sender] at h; cases h)
    | _ sender =>
      simp only [Net.next, sender] at h
      cases h
  | timeout =>
    cases hin with
    | ready sender =>
      simp only [Net.next, sender] at h
      cases h
    | lost sender toServer accepted =>
      simp only [Net.next, sender, Option.some.injEq] at h
      subst h
      exact .ready rfl toServer accepted
    | ended sender toServer =>
      rcases sender with sender | sender
      · simp only [Net.next, sender, Option.some.injEq] at h
        subst h
        exact .ended (Or.inl sender) toServer
      · simp only [Net.next, sender] at h
        cases h
    | underWay sender toServer accepted dropped =>
      rcases ho with hdropped | hgoodbye
      · simp [dropped] at hdropped
      · simp [sender] at hgoodbye
    | answered sender toServer accepted dropped =>
      rcases ho with hdropped | hgoodbye
      · simp [dropped] at hdropped
      · simp [sender] at hgoodbye
  | hear n =>
    obtain ⟨reply, phase, hreply, hphase, rfl⟩ := Net.next_hear_iff.1 h
    have hlen : 0 < s.toSender.length := by
      obtain ⟨hn, -⟩ := List.getElem?_eq_some_iff.1 hreply
      omega
    cases hin with
    | ready sender =>
      rw [sender] at hphase
      cases hphase
    | underWay sender toServer accepted =>
      have := hs.accepted_of_reply sender hlen
      omega
    | lost sender toServer accepted =>
      have := hs.accepted_of_reply sender hlen
      omega
    | answered sender toServer accepted =>
      rw [sender] at hphase
      have hi := (hs.sending _ _ (Or.inr sender)).1
      rcases Nat.lt_or_eq_of_le (Nat.succ_le_of_lt hi) with hlt | heq
      · rw [Upload.hear, Upload.nextFragment_of_lt hcount hlt, Option.some.injEq] at hphase
        exact .ready hphase.symm toServer accepted
      · rw [Upload.hear, Upload.nextFragment_of_le heq.ge, Option.some.injEq] at hphase
        exact .ended (Or.inl hphase.symm) toServer
    | ended sender toServer =>
      rcases sender with sender | sender
      · rw [sender] at hphase
        exact .ended (Or.inr (Option.some.inj hphase).symm) toServer
      · rw [sender] at hphase
        cases hphase
  | receive n randNum =>
    obtain rfl : n = 0 := ho
    obtain ⟨d, turn, hd, hturn, rfl⟩ := Net.next_receive_iff.1 h
    cases hin with
    | underWay sender toServer accepted dropped =>
      by_cases hkept : 5 < randNum
      · obtain ⟨hi, -⟩ := hs.sending _ _ (Or.inr sender)
        obtain ⟨server, reply, hreceive, -⟩ := hs.server.receive (accepted ▸ hi) (Upload.total_lt hcount) hcolon hkept
        rw [toServer] at hd
        obtain rfl := Option.some.inj hd
        obtain rfl := Option.some.inj (hreceive.symm.trans hturn)
        exact .answered sender (by simp [toServer]) (congrArg (· + 1) accepted) (by simp [dropped])
      · obtain rfl := Server.receive_dropped hkept hturn
        exact .lost sender (by simp [toServer]) accepted
    | _ => simp_all
  | finish =>
    obtain ⟨server, goodbye, hfinish, rfl⟩ := Net.next_finish_iff.1 h
    cases hin with
    | ready sender toServer accepted => exact .ready sender toServer accepted
    | underWay sender toServer accepted dropped => exact .underWay sender toServer accepted dropped
    | lost sender toServer accepted => exact .lost sender toServer accepted
    | answered sender toServer accepted dropped => exact .answered sender toServer accepted dropped
    | ended sender toServer => exact .ended sender toServer
  | losePacket n => exact ho.elim
  | loseReply n => exact ho.elim

/-- The invariants give what is expected. -/
private theorem Safe.lockstep (hcount : ⌈(u.file.length : ℚ) / fileFragSize⌉ < 2 ^ 31) (hs : Safe u s) :
    Lockstep u s := by
  refine ⟨hs.written, fun i hi => ?_, fun hleft => ?_⟩
  · have hpos : s.sender.position u.total = i := by
      cases hphase : s.sender <;> rw [hphase] at hi <;> cases hi <;> rfl
    have hle := hs.position_le
    have hge := hs.accepted_le
    omega
  · obtain ⟨htotal, hfrag⟩ := hs.server.left hs.accepted_le_total (Upload.total_lt hcount) hleft
    have hlt := Upload.total_lt hcount
    refine ⟨?_, ?_, ?_⟩
    · rw [hfrag, UInt32.toNat_ofNat']
      omega
    · rw [htotal, Upload.total_eq hcount]
    · rw [hs.written, htotal, flatMap_fragment, Upload.take_total hcount]

end Steps

/-- Whatever the server drops, what it has written is the fragments that it has accepted, the sender is at the last of
them or the next, and in the end the file is there. -/
theorem stop_and_wait {u : Upload} {s : Net} (hcount : ⌈(u.file.length : ℚ) / fileFragSize⌉ < 2 ^ 31)
    (hcolon : colon ∉ u.name.bytes) (hr : Reachable ((transfer u).when InOrder) s) : Lockstep u s := by
  have hinv : Safe u s ∧ InStep u s := by
    refine hr.invariant (P := fun s => Safe u s ∧ InStep u s) (fun s h => ⟨h.safe, h.inStep hcount⟩) ?_
    rintro s e t - ⟨hs, hin⟩ ⟨ho, h⟩
    exact ⟨hs.step hcount hcolon (hin.keepsNew hcount hs ho) h, hin.step hcount hcolon hs ho h⟩
  exact hinv.1.lockstep hcount

/-- The server drops the first packet, and accepts it when it comes again. -/
theorem stop_and_wait_letters : ∃ s, Reachable ((transfer letters).when InOrder) s ∧ s.accepted = 1 ∧
    Lockstep letters s := by
  obtain ⟨server, reply, hreceive, -⟩ := Server.At.receive (u := letters) (s := (lettersSent 1).server) (i := 0) (k := 0)
    (Or.inl ⟨rfl, Or.inl rfl⟩) Nat.two_pos (by decide) (by decide) (show 5 < 100 by decide)
  have hsent : Reachable ((transfer letters).when InOrder) (lettersSent 1) := reachable_lettersSent fun _ => trivial
  let dropped : Net := { lettersSent 1 with toServer := [], dropped := true }
  let again : Net := { dropped with sender := .sending 0 (letters.datagram 0) }
  have hdropped : Reachable ((transfer letters).when InOrder) dropped := .step hsent (e := .receive 0 5) ⟨rfl, rfl⟩
  have hagain : Reachable ((transfer letters).when InOrder) again := .step hdropped (e := .timeout) ⟨Or.inl rfl, rfl⟩
  have hresent : Reachable ((transfer letters).when InOrder) (lettersSent 1) := .step hagain (e := .send) ⟨trivial, rfl⟩
  have hin : InOrder (lettersSent 1) (.receive 0 100) := rfl
  have hnext := Net.next_receive (u := letters) (s := lettersSent 1) (n := 0) rfl hreceive
  have haccepted : Reachable ((transfer letters).when InOrder) _ := .step hresent ⟨hin, hnext⟩
  exact ⟨_, haccepted, rfl, stop_and_wait letters_count (by decide) haccepted⟩

end FileTransfer
