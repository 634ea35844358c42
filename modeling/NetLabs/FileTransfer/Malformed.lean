import NetLabs.FileTransfer.Transfer

/-!
# Datagrams that are not packets

Anybody can send a datagram to the server.  `buffer_to_packet` stays inside its arrays exactly when the datagram starts
with four fields that fit them and the third one counts no more bytes than `filedata` holds; the NULs behind a datagram
in the buffer never supply a colon, and the fields are too short for the data bytes to run out of the buffer.
-/

namespace FileTransfer

open CText

/-- A datagram from which a packet can be read. -/
def WellFormed (datagram : Bytes) : Prop :=
  ∃ t f n s rest, Fields datagram t f n s rest ∧ (atoi n).toNat ≤ fileFragSize

variable {datagram t f n s rest : Bytes}

theorem Fields.length_le (h : Fields datagram t f n s rest) : datagram.length ≤ 292 + rest.length := by
  have h₁ := h.total_field.2
  have h₂ := h.number_field.2
  have h₃ := h.size_field.2
  have h₄ : s.length < 256 := h.name_field.2
  rw [h.data_eq]
  simp only [List.length_append, List.length_cons]
  omega

/-- The fields of a padded text are those of the text. -/
private theorem fields_append_iff {z : Bytes} (hz : colon ∉ z) :
    Fields (datagram ++ z) t f n s rest ↔ ∃ rest', Fields datagram t f n s rest' ∧ rest = rest' ++ z := by
  constructor
  · rintro ⟨heq, ht, hf, hn, hs⟩
    obtain ⟨d₁, rfl, h₁⟩ := field_of_append hz heq
    obtain ⟨d₂, rfl, h₂⟩ := field_of_append hz h₁.symm
    obtain ⟨d₃, rfl, h₃⟩ := field_of_append hz h₂.symm
    obtain ⟨d₄, rfl, h₄⟩ := field_of_append hz h₃.symm
    exact ⟨d₄, ⟨rfl, ht, hf, hn, hs⟩, h₄⟩
  · rintro ⟨rest', ⟨rfl, ht, hf, hn, hs⟩, rfl⟩
    exact ⟨by simp only [List.append_assoc, List.cons_append], ht, hf, hn, hs⟩

theorem bytes_recvFrom (hlen : datagram.length ≤ sendingBufferSize) :
    (Server.recvFrom datagram).bytes = datagram ++ List.replicate (sendingBufferSize - datagram.length) 0 := by
  rw [Server.recvFrom, CArray.bytes_zero_write, List.take_of_length_le hlen]

/-- Exactly from the well formed datagrams a packet is read. -/
private theorem bufferToPacket_recvFrom (content : CArray 12) (p : Packet) (name : CArray nameLength)
    (hlen : datagram.length ≤ sendingBufferSize) :
    (∃ r name', bufferToPacket content p name (Server.recvFrom datagram).bytes = some (r, name')) ↔
      WellFormed datagram := by
  have hz : colon ∉ List.replicate (sendingBufferSize - datagram.length) (0 : Byte) := by
    intro hmem
    exact absurd (List.eq_of_mem_replicate hmem) (by decide)
  rw [bytes_recvFrom hlen]
  constructor
  · rintro ⟨r, name', hread⟩
    obtain ⟨t, f, n, s, rest, hfields, hsize, -⟩ := bufferToPacket_some hread
    obtain ⟨rest', hfields', -⟩ := (fields_append_iff hz).1 hfields
    exact ⟨t, f, n, s, rest', hfields', hsize⟩
  · rintro ⟨t, f, n, s, rest, hfields, hsize⟩
    -- behind the fields there is room for the data of the largest packet
    have hroom : (atoi n).toNat ≤ (rest ++ List.replicate (sendingBufferSize - datagram.length) 0).length := by
      have hle := hfields.length_le
      have hsize' : (atoi n).toNat ≤ 1000 := hsize
      have hlen' : datagram.length ≤ 2000 := hlen
      rw [List.length_append, List.length_replicate]
      show _ ≤ rest.length + (2000 - datagram.length)
      omega
    exact ⟨_, _, bufferToPacket_fields content p name ((fields_append_iff hz).2 ⟨rest, hfields, rfl⟩) hsize hroom⟩

/-- The decoder and the `write` behind it are safe on a datagram if and only if it is well formed. -/
theorem packet_decoder_safe (content : CArray 12) (p : Packet) (name : CArray nameLength)
    (hlen : datagram.length ≤ sendingBufferSize) :
    (∃ r name', bufferToPacket content p name (Server.recvFrom datagram).bytes = some (r, name') ∧
      r.size.toNat ≤ fileFragSize) ↔ WellFormed datagram := by
  constructor
  · rintro ⟨r, name', hread, -⟩
    exact (bufferToPacket_recvFrom content p name hlen).1 ⟨r, name', hread⟩
  · intro hwf
    obtain ⟨r, name', hread⟩ := (bufferToPacket_recvFrom content p name hlen).2 hwf
    obtain ⟨t, f, n, s, rest, -, hsize, -, hr, -⟩ := bufferToPacket_some hread
    exact ⟨r, name', hread, by rw [hr]; exact hsize⟩

/-- The first field of a datagram without a colon is never closed. -/
theorem packet_decoder_safe_fails :
    (ascii "hello").length ≤ sendingBufferSize ∧
      ¬ ∃ r name', bufferToPacket (CArray.zero 12) Packet.zero (CArray.zero nameLength)
        (Server.recvFrom (ascii "hello")).bytes = some (r, name') ∧ r.size.toNat ≤ fileFragSize := by
  have hlen : (ascii "hello").length ≤ sendingBufferSize := by decide
  refine ⟨hlen, ?_⟩
  rintro ⟨r, name', hread, -⟩
  obtain ⟨t, f, n, s, rest, hfields, -⟩ := (bufferToPacket_recvFrom _ _ _ hlen).1 ⟨r, name', hread⟩
  have hmem : colon ∈ ascii "hello" := by
    rw [hfields.data_eq]
    simp
  exact absurd hmem (by decide)

/-- A fragment of two bytes. -/
theorem packet_decoder_safe_data :
    ∃ r name', bufferToPacket (CArray.zero 12) Packet.zero (CArray.zero nameLength)
      (Server.recvFrom (ascii "2:1:2:a:hi")).bytes = some (r, name') ∧ r.size.toNat ≤ fileFragSize ∧
      r.filedata.bytes.take r.size.toNat = ascii "hi" := by
  have hwf : WellFormed (ascii "2:1:2:a:hi") :=
    ⟨ascii "2", ascii "1", ascii "2", ascii "a", ascii "hi", ⟨rfl, by decide, by decide, by decide, by decide⟩, by decide⟩
  obtain ⟨r, name', hread, hsize⟩ := (packet_decoder_safe (CArray.zero 12) Packet.zero (CArray.zero nameLength)
    (by decide)).2 hwf
  have hdata : (bufferToPacket (CArray.zero 12) Packet.zero (CArray.zero nameLength)
      (Server.recvFrom (ascii "2:1:2:a:hi")).bytes).map (fun p => p.1.filedata.bytes.take p.1.size.toNat) =
      some (ascii "hi") := by decide +kernel
  rw [hread] at hdata
  exact ⟨r, name', hread, hsize, Option.some.inj hdata⟩

/-! ### What a malformed datagram does to the server -/

/-- A datagram leaves the server without a next state exactly when it is kept, is not the end of the session, and is not
well formed. -/
theorem Server.receive_eq_none_iff {s : Server} {randNum : Nat} (hlen : datagram.length ≤ sendingBufferSize)
    (hphase : s.phase = .outer) :
    s.receive datagram randNum = none ↔
      5 < randNum ∧ cstr (recvFrom datagram).bytes ≠ ascii "done\n" ∧ ¬ WellFormed datagram := by
  obtain ⟨messages, hack, -⟩ := ackToBuffer_eq (fillTheAck s.totalFrag 1 recevd) (CArray.zero nameLength)
  rw [← bufferToPacket_recvFrom (CArray.zero 12) Packet.zero (CArray.zero nameLength) hlen]
  by_cases hkeep : 5 < randNum
  · by_cases hdone : cstr (recvFrom datagram).bytes = ascii "done\n"
    · simp [receive, hphase, hkeep, hack, hdone]
    · rcases hread : bufferToPacket (CArray.zero 12) Packet.zero (CArray.zero nameLength) (recvFrom datagram).bytes with
        _ | ⟨r, name⟩
      · simp [receive, hphase, hkeep, hack, hdone, hread]
      · simp [receive, hphase, hkeep, hack, hdone, hread]
  · simp [receive, hphase, hkeep]

end FileTransfer
