import NetLabs.Conferencing.Client
import NetLabs.Conferencing.Serving

/-!
# Framing

Messages travel over a byte stream, and each `recv` is decoded as exactly one message, with nothing carried over to the
next.  `message_framing` says for which ways of cutting the stream into chunks the receiving loop handles the messages
that were sent.

Colons decide it: a chunk that decodes to a message holds at least as many of them as the bytes of the message, and all
chunks together hold no more than all messages.  So every chunk starts inside the type field of its message.
-/

namespace Conferencing

open CText

/-! ### Messages on the stream -/

/-- A message on its way.  The size counts the text and, for a chat message, the NUL that is not sent. -/
structure Sent where
  type : UInt32
  size : UInt32
  source : CStr maxName
  text : CStr maxData
  counted : size.toNat = text.bytes.length ∨ type = MsgType.message ∧ size.toNat = text.bytes.length + 1
  deriving DecidableEq

namespace Sent

def bytes (m : Sent) : Bytes := header m.type m.size m.source.bytes ++ m.text.bytes

/-- The bytes of some messages, sent back to back. -/
def stream (ms : List Sent) : Bytes := ms.flatMap bytes

/-- The message has the type, the source and the text of the one that was sent. -/
structure Shows (m : Sent) (received : Message) : Prop where
  type_eq : received.type = m.type
  source_text : received.source.text? = some m.source
  data_text : received.data.text? = some m.text

/-- The message still has its type when the first `k` bytes of its type field are missing. -/
def Spells (m : Sent) (k : Nat) : Prop := k = 0 ∨ k = 1 ∧ atoi ((printD m.type).drop 1) = m.type

end Sent

/-- Every `fill_and_send_message` sends such a message. -/
theorem fillAndSendMessage_sent {type : UInt32} {source : CStr maxName} {data : Option (CStr maxData)}
    {message : Message} {bytes : Bytes} (h : fillAndSendMessage type source data = some (message, bytes)) :
    ∃ m : Sent, m.type = type ∧ m.source = source ∧ m.Shows message ∧ m.bytes = bytes := by
  by_cases htype : type = MsgType.message
  · subst htype
    have hsize : ∃ n : UInt32, ∃ memory : Bytes, n.toNat ≤ maxData ∧ n.toNat ≤ memory.length ∧
        ((fillMessage .zero MsgType.message n source.mem memory).bind fun r =>
          (messageToString r r.size (CArray.zero maximumBufferSize)).bind fun out => some (r, cstr out.1.bytes)) =
        some (message, bytes) := by
      cases data with
      | none => exact ⟨0, [], by decide, by decide, h⟩
      | some data =>
        have hnat := toNat_length_data data
        have hfits := data.fits
        refine ⟨UInt32.ofNat data.bytes.length, data.mem, by omega, ?_, h⟩
        rw [data.length_mem]
        omega
    obtain ⟨n, memory, hn, hlen, hsend⟩ := hsize
    obtain ⟨r, hfill, hchat⟩ := fillMessage_chat .zero hn source hlen
    obtain ⟨out, count, hprint, hcstr⟩ := hchat.messageToString (CArray.zero maximumBufferSize) (by decide)
    rw [hfill, Option.bind_some, hprint, Option.bind_some, Option.some.injEq, Prod.mk.injEq] at hsend
    obtain ⟨rfl, rfl⟩ := hsend
    refine ⟨⟨MsgType.message, n, source, chatText n memory hn, ?_⟩, rfl, rfl,
      ⟨hchat.type_eq, hchat.source_text, hchat.data_text⟩, hcstr.symm⟩
    rcases hchat.size_text with hsize | ⟨rfl, htext⟩
    · exact Or.inr ⟨rfl, hsize⟩
    · exact Or.inl (by rw [htext]; rfl)
  · rw [fillAndSendMessage_eq htype] at h
    cases h
    exact ⟨⟨type, _, source, textOrEmpty data, Or.inl (toNat_length_data _)⟩, rfl, rfl,
      ⟨rfl, text_reply_source _ _ _, text_reply_data _ _ _⟩, rfl⟩

/-! ### The receiving loop -/

/-- The messages that a receiving loop handles; it ends after a message of some types. -/
def receiveLoop (ends : UInt32 → Bool) : List Bytes → Option (List Message)
  | [] => some []
  | chunk :: chunks => do
    let (message, _) ← decode (recvBuffer chunk)
    if ends message.type then some [message]
    else (receiveLoop ends chunks).map (message :: ·)

/-- The messages after which `connection_handler` leaves its loop. -/
def serverEnds (type : UInt32) : Bool := type = MsgType.exit

/-- The messages after which `server_message_handler` leaves its loop. -/
def clientEnds (type : UInt32) : Bool := type = MsgType.loNak ∨ type = MsgType.rgNak

/-- `chunks` cut the bytes of `ms`, the first `k` of which have already been received, into one message each: no more
and no less than its bytes, except that the first byte of the next message may come along when its type can do
without it. -/
def Framed : Nat → List Sent → List Bytes → Prop
  | k, [], chunks => k = 0 ∧ chunks = []
  | _, _ :: _, [] => False
  | k, m :: ms, chunk :: chunks => m.Spells k ∧
      (chunk = m.bytes.drop k ∧ Framed 0 ms chunks ∨
        m.size.toNat = m.text.bytes.length ∧ chunk = m.bytes.drop k ++ (Sent.stream ms).take 1 ∧ Framed 1 ms chunks)

/-! ### The bytes of a message -/

namespace Sent

variable {m : Sent} {k : Nat}

theorem size_le (m : Sent) : m.size.toNat ≤ maxData := by
  have hfits := m.text.fits
  rcases m.counted with h | ⟨-, h⟩ <;> omega

private theorem length_bytes_le (m : Sent) : m.bytes.length ≤ 1033 := by
  have hfits : m.text.bytes.length < 1000 := m.text.fits
  have hhead := length_header_le m.type m.source m.size_le
  rw [bytes, List.length_append]
  omega

private theorem nul_not_mem_bytes (m : Sent) : (0 : Byte) ∉ m.bytes := by
  simp only [bytes, List.mem_append, not_or]
  exact ⟨nul_not_mem_header _ _ m.source.nulFree, m.text.nulFree⟩

private theorem nul_not_mem_stream (ms : List Sent) : (0 : Byte) ∉ stream ms := by
  simp only [stream, List.mem_flatMap, not_exists, not_and]
  exact fun m _ => m.nul_not_mem_bytes

private theorem bytes_eq (m : Sent) : m.bytes = printD m.type ++ colon :: (printD m.size ++ colon ::
    (m.source.bytes ++ colon :: m.text.bytes)) := by
  rw [bytes, header_append]

/-- The bytes of a message whose type field has lost its first bytes. -/
private theorem drop_bytes (m : Sent) (hk : k ≤ (printD m.type).length) :
    m.bytes.drop k = (printD m.type).drop k ++ colon :: (printD m.size ++ colon ::
      (m.source.bytes ++ colon :: m.text.bytes)) := by
  rw [bytes_eq, List.drop_append_of_le_length hk]

theorem Spells.le (h : m.Spells k) : k ≤ (printD m.type).length := by
  have := List.length_pos_iff.2 (printD_ne_nil m.type)
  rcases h with rfl | ⟨rfl, -⟩ <;> omega

private theorem Spells.atoi_eq (h : m.Spells k) : atoi ((printD m.type).drop k) = m.type := by
  rcases h with rfl | ⟨rfl, h⟩
  · exact atoi_printD m.type
  · exact h

private theorem spells_of_atoi (hk : k ≤ (printD m.type).length) (h : atoi ((printD m.type).drop k) = m.type) :
    m.Spells k := by
  rcases Nat.eq_zero_or_pos k with rfl | hpos
  · exact Or.inl rfl
  · obtain rfl := atoi_drop_printD hpos hk h
    exact Or.inr ⟨rfl, h⟩

private theorem count_colon_drop (hcolon : colon ∉ m.source.bytes) (hk : k ≤ (printD m.type).length) :
    (m.bytes.drop k).count colon = m.text.bytes.count colon + 3 := by
  have htype : colon ∉ (printD m.type).drop k := fun h => colon_not_mem_printD _ (List.mem_of_mem_drop h)
  rw [drop_bytes m hk]
  simp only [List.count_append, List.count_cons_self, List.count_eq_zero_of_not_mem htype,
    List.count_eq_zero_of_not_mem (colon_not_mem_printD m.size), List.count_eq_zero_of_not_mem hcolon]
  omega

end Sent

/-! ### Chunks that are cut as they should be -/

/-- A message is shown when its type can be read, and nothing follows it that its size would count. -/
private theorem decode_framed {m : Sent} {k : Nat} {e : Bytes} (hspells : m.Spells k) (hcolon : colon ∉ m.source.bytes)
    (he : e = [] ∨ m.size.toNat = m.text.bytes.length) (hlen : (m.bytes.drop k ++ e).length ≤ maximumBufferSize) :
    ∃ received, decode (recvBuffer (m.bytes.drop k ++ e)) = some (received, m.source) ∧ m.Shows received := by
  have hfits : m.text.bytes.length < 1000 := m.text.fits
  have hsize := m.size_le
  have htype : colon ∉ (printD m.type).drop k := fun h => colon_not_mem_printD _ (List.mem_of_mem_drop h)
  have htlen : ((printD m.type).drop k).length < 12 := by
    have := length_printD_le m.type
    rw [List.length_drop]
    omega
  -- at least one zero stands behind the bytes when the size counts the NUL
  obtain ⟨z, hz⟩ : ∃ z, maximumBufferSize - (m.bytes.drop k ++ e).length = z := ⟨_, rfl⟩
  have hroom : m.size.toNat ≤ (m.text.bytes ++ (e ++ List.replicate z 0)).length := by
    simp only [List.length_append, List.length_replicate]
    rcases m.counted with h | ⟨-, h⟩
    · omega
    · rcases he with rfl | he
      · have := m.length_bytes_le
        have hbound : maximumBufferSize = 1200 := rfl
        simp only [List.append_nil, List.length_drop] at hz
        omega
      · omega
  have hbuf : recvBuffer (m.bytes.drop k ++ e) = (printD m.type).drop k ++ colon :: (printD m.size ++ colon ::
      (m.source.bytes ++ colon :: (m.text.bytes ++ (e ++ List.replicate z 0)))) := by
    rw [recvBuffer, hz, m.drop_bytes hspells.le]
    simp
  have hread := stringToMessage_fields (CArray.zero 12) .zero htype htlen hcolon hsize hroom
  rw [← hbuf, hspells.atoi_eq] at hread
  have hsource : ∀ a : CArray maxName, (a.write 0 m.source.mem
      (by rw [m.source.length_mem]; have := m.source.fits; omega)).text? = some m.source := by
    intro a
    apply CArray.text?_eq_some
    rw [CArray.bytes_write_zero, m.source.length_mem, CStr.mem, List.append_assoc]
    rfl
  refine ⟨_, by simp only [decode, hread, Option.bind_eq_bind, Option.bind_some, hsource]; rfl, rfl, hsource _, ?_⟩
  have hdata : ∃ rest, ((CArray.zero maxData).write 0
      ((m.text.bytes ++ (e ++ List.replicate z 0)).take m.size.toNat) (by simp; omega)).bytes =
      m.text.bytes ++ 0 :: rest := by
    rw [CArray.bytes_zero_write]
    rcases m.counted with h | ⟨-, h⟩
    · rw [h, List.take_left]
      obtain ⟨j, hj⟩ : ∃ j, maxData - m.text.bytes.length = j + 1 := ⟨999 - m.text.bytes.length, by
        show 1000 - _ = _
        omega⟩
      exact ⟨List.replicate j 0, by rw [hj, List.replicate_succ]⟩
    · rcases he with rfl | he
      · obtain ⟨j, rfl⟩ : ∃ j, z = j + 1 := ⟨z - 1, by
          simp only [List.nil_append, List.length_append, List.length_replicate] at hroom
          omega⟩
        rw [h, List.nil_append, List.take_length_add_append, List.append_assoc]
        exact ⟨_, rfl⟩
      · omega
  exact CArray.text?_eq_some hdata.choose_spec

/-! ### What a chunk that is decoded holds -/

/-- A text without NULs that stands before zeros stands before the zeros begin. -/
private theorem prefix_of_zeros {t a u : Bytes} {z : Nat} (h0 : (0 : Byte) ∉ t) (h : t ++ a = u ++ List.replicate z 0) :
    t <+: u := by
  rcases List.append_eq_append_iff.1 h with ⟨s, rfl, -⟩ | ⟨s, rfl, hs⟩
  · exact List.prefix_append t s
  · cases s with
    | nil => simp
    | cons b s =>
      have hb : b ∈ List.replicate z (0 : Byte) := by rw [hs]; simp
      rw [List.eq_of_mem_replicate hb] at h0
      exact absurd (by simp) h0

/-- A chunk that shows a message: three fields `t`, `n` and the source, the text, and possibly more bytes `e`. -/
structure ShownBy (m : Sent) (chunk t n e : Bytes) : Prop where
  chunk_eq : chunk = t ++ colon :: (n ++ colon :: (m.source.bytes ++ colon :: (m.text.bytes ++ e)))
  type_field : colon ∉ t
  size_field : colon ∉ n
  source_field : colon ∉ m.source.bytes
  type_eq : atoi t = m.type
  data_eq : ∃ r z, m.text.bytes ++ 0 :: r = (m.text.bytes ++ e).take (atoi n).toNat ++ List.replicate z 0

private theorem shownBy_of_decode {m : Sent} {chunk : Bytes} {received : Message} {claimed : CStr maxName}
    (h0 : (0 : Byte) ∉ chunk) (hdec : decode (recvBuffer chunk) = some (received, claimed))
    (hshows : m.Shows received) : ∃ t n e, ShownBy m chunk t n e := by
  obtain ⟨hsource, hcolon, -⟩ := decode_eq_some hdec
  obtain rfl : claimed = m.source := Option.some.inj (hsource.symm.trans hshows.source_text)
  unfold decode at hdec
  obtain ⟨message, hm, h⟩ := Option.bind_eq_some_iff.1 hdec
  obtain ⟨source, -, h⟩ := Option.bind_eq_some_iff.1 h
  cases h
  obtain ⟨t, n, s, rest, hreads⟩ := stringToMessage_some hm
  have hzeros : colon ∉ List.replicate (maximumBufferSize - chunk.length) (0 : Byte) := fun h =>
    absurd (List.eq_of_mem_replicate h) (by decide)
  obtain ⟨v₁, hv₁, he₁⟩ := field_of_append hzeros hreads.buffer_eq
  obtain ⟨v₂, hv₂, he₂⟩ := field_of_append hzeros he₁.symm
  obtain ⟨v₃, hv₃, he₃⟩ := field_of_append hzeros he₂.symm
  have hchunk : chunk = t ++ colon :: (n ++ colon :: (s ++ colon :: v₃)) := by rw [hv₁, hv₂, hv₃]
  have hsnul : (0 : Byte) ∉ s := fun h => h0 (by rw [hchunk]; simp [h])
  obtain rfl : m.source.bytes = s := by
    have hcstr := CArray.cstr_of_text? hsource
    rw [hreads.source_eq, cstr_append_nul hsnul] at hcstr
    exact hcstr.symm
  have hdata : ∃ z, received.data.bytes = v₃.take received.size.toNat ++ List.replicate z 0 := by
    rw [hreads.data_eq, he₃, List.take_append, List.take_replicate, List.append_assoc]
    have hzero : Message.zero.data.bytes.drop received.size.toNat = List.replicate (maxData - received.size.toNat) 0 :=
      List.drop_replicate ..
    rw [hzero, List.replicate_append_replicate]
    exact ⟨_, rfl⟩
  obtain ⟨z, hz⟩ := hdata
  obtain ⟨r, hr⟩ := CArray.bytes_of_text? hshows.data_text
  have hread := hr.symm.trans hz
  -- the data that are read start with the text, so the whole text stands in the chunk
  obtain ⟨e, rfl⟩ : m.text.bytes <+: v₃ := (prefix_of_zeros m.text.nulFree hread).trans (List.take_prefix _ _)
  exact ⟨t, n, e, hchunk, hreads.type_field, hreads.size_field, hcolon, hreads.type_eq.symm.trans hshows.type_eq, r, z,
    by rw [← hreads.size_eq]; exact hread⟩

private theorem ShownBy.count_colon {m : Sent} {chunk t n e : Bytes} (h : ShownBy m chunk t n e) :
    chunk.count colon = m.text.bytes.count colon + 3 + e.count colon := by
  rw [h.chunk_eq]
  simp only [List.count_append, List.count_cons_self, List.count_eq_zero_of_not_mem h.type_field,
    List.count_eq_zero_of_not_mem h.size_field, List.count_eq_zero_of_not_mem h.source_field]
  omega

/-- A chunk that starts inside the type field of a message, shows it, and has no more colons than it, is the rest of
the message and possibly some of the type field of the next one. -/
theorem ShownBy.split {m : Sent} {k : Nat} {chunk more after t n e : Bytes} (h : ShownBy m chunk t n e)
    (hk : k ≤ (printD m.type).length) (hstream : chunk ++ more = m.bytes.drop k ++ after) (h0 : (0 : Byte) ∉ after)
    (hcount : chunk.count colon ≤ m.text.bytes.count colon + 3) :
    m.Spells k ∧ chunk = m.bytes.drop k ++ e ∧ e ++ more = after ∧ colon ∉ e ∧
      (e = [] ∨ m.size.toNat = m.text.bytes.length) := by
  -- the fields of the chunk are those of the message
  have hfields := hstream
  rw [h.chunk_eq, m.drop_bytes hk] at hfields
  simp only [List.append_assoc, List.cons_append] at hfields
  have htdrop : colon ∉ (printD m.type).drop k := fun h => colon_not_mem_printD _ (List.mem_of_mem_drop h)
  obtain ⟨ht, hrest⟩ := field_unique h.type_field htdrop hfields
  obtain ⟨hn, hrest⟩ := field_unique h.size_field (colon_not_mem_printD m.size) hrest
  obtain ⟨-, hrest⟩ := field_unique h.source_field h.source_field hrest
  rw [List.append_cancel_left_eq] at hrest
  refine ⟨Sent.spells_of_atoi hk (ht ▸ h.type_eq), ?_, hrest, ?_, ?_⟩
  · rw [h.chunk_eq, m.drop_bytes hk, ht, hn]
    simp
  · have := h.count_colon
    exact List.count_eq_zero.1 (by omega)
  · rcases m.counted with hsize | ⟨-, hsize⟩
    · exact Or.inr hsize
    · left
      obtain ⟨r, z, hread⟩ := h.data_eq
      rw [hn, atoi_printD, hsize, List.take_length_add_append, List.append_assoc, List.append_cancel_left_eq] at hread
      cases e with
      | nil => rfl
      | cons b e =>
        simp only [List.take_succ_cons, List.take_zero, List.cons_append, List.cons.injEq] at hread
        rw [← hrest, ← hread.1] at h0
        exact absurd (by simp) h0

/-! ### Streams -/

/-- The chunk shows the message. -/
def Shown (m : Sent) (chunk : Bytes) : Prop :=
  ∃ received claimed, decode (recvBuffer chunk) = some (received, claimed) ∧ m.Shows received

private theorem count_colon_stream_le {ms : List Sent} {chunks : List Bytes} (h : List.Forall₂ Shown ms chunks)
    (h0 : (0 : Byte) ∉ chunks.flatten) : (Sent.stream ms).count colon ≤ chunks.flatten.count colon := by
  induction h with
  | nil => exact Nat.le_refl _
  | @cons m chunk ms chunks hshown _ ih =>
    simp only [List.flatten_cons, List.mem_append, not_or] at h0
    obtain ⟨received, claimed, hdec, hshows⟩ := hshown
    obtain ⟨t, n, e, hby⟩ := shownBy_of_decode h0.1 hdec hshows
    have hbytes := Sent.count_colon_drop (k := 0) hby.source_field (Nat.zero_le _)
    have hchunk := hby.count_colon
    have := ih h0.2
    simp only [Sent.stream, List.flatMap_cons, List.flatten_cons, List.count_append, List.drop_zero] at hbytes this ⊢
    omega

private theorem Framed.le_one {k : Nat} {ms : List Sent} {chunks : List Bytes} (h : Framed k ms chunks) : k ≤ 1 := by
  cases ms with
  | nil => exact h.1 ▸ Nat.zero_le 1
  | cons m ms =>
    cases chunks with
    | nil => cases h
    | cons chunk chunks =>
      rcases h.1 with hk | ⟨hk, -⟩
      · omega
      · omega

/-- A text without a colon at the start of a stream stands inside the first type field. -/
private theorem length_le_of_stream {m : Sent} {ms : List Sent} {e more : Bytes} (he : colon ∉ e)
    (h : e ++ more = Sent.stream (m :: ms)) : e.length ≤ (printD m.type).length := by
  rw [Sent.stream, List.flatMap_cons, m.bytes_eq, List.append_assoc] at h
  rcases List.append_eq_append_iff.1 h with ⟨s, hs, -⟩ | ⟨s, hs, hcons⟩
  · rw [hs, List.length_append]
    omega
  · cases s with
    | nil => rw [hs, List.append_nil]
    | cons b s =>
      simp only [List.cons_append, List.cons.injEq] at hcons
      rw [hs, ← hcons.1] at he
      exact absurd (by simp) he

/-- If every message is shown by one chunk, the chunks are cut as they should be.  By induction on the messages, with
the number of bytes of the first one that came with an earlier chunk. -/
private theorem framed_of_shown {ms : List Sent} {used unused : List Bytes} (hshown : List.Forall₂ Shown ms used)
    (hne : ∀ chunk ∈ used ++ unused, chunk ≠ []) {k : Nat} (hnil : ms = [] → k = 0)
    (hk : ∀ m, ms.head? = some m → k ≤ (printD m.type).length)
    (hstream : used.flatten ++ unused.flatten = (Sent.stream ms).drop k) : Framed k ms (used ++ unused) := by
  induction hshown generalizing k with
  | nil =>
    refine ⟨hnil rfl, ?_⟩
    have hflat : unused.flatten = [] := by simpa [Sent.stream] using hstream
    cases unused with
    | nil => rfl
    | cons chunk unused =>
      exact absurd (List.append_eq_nil_iff.1 hflat).1 (hne chunk (by simp))
  | @cons m chunk ms used hshown hshowns ih =>
    have hkm := hk m rfl
    have hdrop : (Sent.stream (m :: ms)).drop k = m.bytes.drop k ++ Sent.stream ms := by
      have hle : k ≤ m.bytes.length := by
        rw [m.bytes_eq, List.length_append]
        omega
      rw [Sent.stream, List.flatMap_cons, List.drop_append_of_le_length hle]
      rfl
    have hstream' : chunk ++ (used.flatten ++ unused.flatten) = m.bytes.drop k ++ Sent.stream ms := by
      rw [← hdrop, ← hstream, List.flatten_cons, List.append_assoc]
    have hnul : (0 : Byte) ∉ chunk ++ (used.flatten ++ unused.flatten) := by
      rw [hstream', List.mem_append, not_or]
      exact ⟨fun h => m.nul_not_mem_bytes (List.mem_of_mem_drop h), Sent.nul_not_mem_stream ms⟩
    simp only [List.mem_append, not_or] at hnul
    obtain ⟨received, claimed, hdec, hshows⟩ := hshown
    obtain ⟨t, n, e, hby⟩ := shownBy_of_decode hnul.1 hdec hshows
    -- no chunk can have more colons than its message: the others have at least as many as theirs
    have hcount : chunk.count colon ≤ m.text.bytes.count colon + 3 := by
      have hle := count_colon_stream_le hshowns hnul.2.1
      have htotal := congrArg (List.count colon) hstream'
      simp only [List.count_append, Sent.count_colon_drop hby.source_field hkm] at htotal
      omega
    obtain ⟨hspells, hchunk, hmore, hcolon, hsize⟩ := hby.split hkm hstream' (Sent.nul_not_mem_stream ms) hcount
    have hframed : Framed e.length ms (used ++ unused) := by
      refine ih (fun c hc => hne c (by simp only [List.cons_append, List.mem_cons]; exact Or.inr hc)) ?_ ?_ ?_
      · rintro rfl
        rw [(List.append_eq_nil_iff.1 hmore).1]
        rfl
      · intro m' hm'
        obtain ⟨ms', rfl⟩ : ∃ ms', ms = m' :: ms' := by
          cases ms with
          | nil => cases hm'
          | cons _ ms' => exact ⟨ms', by rw [Option.some.inj hm']⟩
        exact length_le_of_stream hcolon hmore
      · rw [← hmore, List.drop_left]
    refine ⟨hspells, ?_⟩
    cases e with
    | nil => exact Or.inl ⟨by rw [hchunk, List.append_nil], hframed⟩
    | cons b e =>
      have hone := hframed.le_one
      obtain rfl : e = [] := List.eq_nil_of_length_eq_zero (by rw [List.length_cons] at hone; omega)
      refine Or.inr ⟨hsize.resolve_left (by simp), ?_, hframed⟩
      rw [hchunk, ← hmore]
      rfl

/-! ### The two loops -/

/-- `connection_handler` leaves its loop after the messages of `serverEnds`, and no others. -/
theorem serve_ends {socketFd : Nat} {conn : Conn} {chunk : Bytes} {received : Message} {claimed : CStr maxName}
    {w w' : LockProg.World Mutex Memory} {r : Option Conn}
    (hdec : decode (recvBuffer chunk) = some (received, claimed))
    (hrun : serve socketFd conn chunk w = .ret r w') : r = none ↔ serverEnds received.type = true := by
  simp only [serverEnds, decide_eq_true_eq]
  constructor
  · rintro rfl
    have hyields := serve_yields socketFd conn chunk w
    rw [hrun] at hyields
    obtain ⟨received', claimed', hdec', hserved⟩ := hyields
    rw [hdec, Option.some.injEq, Prod.mk.injEq] at hdec'
    obtain ⟨rfl, rfl⟩ := hdec'
    cases hserved with
    | exited htype _ => exact htype
  · intro htype
    rw [serve_exit hdec htype] at hrun
    cases hexit : serverSideUserExit conn.source w with
    | ret _ w₁ =>
      rw [hexit] at hrun
      cases hrun
      rfl
    | blocked w₁ =>
      rw [hexit] at hrun
      cases hrun
    | fault =>
      rw [hexit] at hrun
      cases hrun

/-- `server_message_handler` leaves its loop after the messages of `clientEnds`, and no others. -/
theorem handle_ends {c c' : Client} {message : Message} {source : CStr maxName} {goesOn : Bool}
    (h : c.handle message source = some (c', goesOn)) : goesOn = false ↔ clientEnds message.type = true := by
  unfold Client.handle at h
  split at h
  · rename_i htype
    have hne : clientEnds message.type = false := by rw [htype]; decide
    have hgoesOn : goesOn = true := by
      split at h
      · cases h
        rfl
      · obtain ⟨_, -, h⟩ := Option.map_eq_some_iff.1 h
        cases h
        rfl
    simp [hgoesOn, hne]
  · split at h
    · cases h
    · cases h
      simp only [clientEnds, decide_eq_false_iff_not, decide_eq_true_eq]
      tauto

/-! ### The loop -/

/-- What is handled was shown by one chunk each, and nothing is handled after a message that ends the loop. -/
private theorem shown_of_loop {ends : UInt32 → Bool} {ms : List Sent} {chunks : List Bytes} {handled : List Message}
    (hloop : receiveLoop ends chunks = some handled) (hshows : List.Forall₂ Sent.Shows ms handled) :
    ∃ used unused, chunks = used ++ unused ∧ List.Forall₂ Shown ms used ∧ (∀ m ∈ ms, colon ∉ m.source.bytes) ∧
      ∀ m ∈ ms.dropLast, ends m.type = false := by
  induction chunks generalizing ms handled with
  | nil =>
    cases hloop
    cases hshows
    exact ⟨[], [], rfl, .nil, by simp, by simp⟩
  | cons chunk chunks ih =>
    obtain ⟨⟨message, claimed⟩, hdec, hloop⟩ := Option.bind_eq_some_iff.1 hloop
    obtain ⟨hsource, hcolon, -⟩ := decode_eq_some hdec
    have hfree : ∀ m : Sent, m.Shows message → colon ∉ m.source.bytes := by
      intro m hm
      rw [Option.some.inj (hm.source_text.symm.trans hsource)]
      exact hcolon
    dsimp only at hloop
    split at hloop
    · cases hloop
      cases hshows with
      | @cons m _ _ _ hm hrest =>
        cases hrest
        exact ⟨[chunk], chunks, rfl, .cons ⟨message, claimed, hdec, hm⟩ .nil, by simpa using hfree m hm, by simp⟩
    · rename_i hends
      obtain ⟨handled', hloop', rfl⟩ := Option.map_eq_some_iff.1 hloop
      cases hshows with
      | @cons m _ ms _ hm hrest =>
        obtain ⟨used, unused, rfl, hused, hcolons, hlast⟩ := ih hloop' hrest
        refine ⟨chunk :: used, unused, rfl, .cons ⟨message, claimed, hdec, hm⟩ hused, ?_, ?_⟩
        · simpa using ⟨hfree m hm, hcolons⟩
        · intro m' hm'
          cases ms with
          | nil => cases hm'
          | cons m₂ ms =>
            rcases List.mem_cons.1 hm' with rfl | hm'
            · rw [← hm.type_eq]
              simpa using hends
            · exact hlast m' hm'

/-- Chunks that are cut as they should be are handled. -/
private theorem loop_of_framed {ends : UInt32 → Bool} {k : Nat} {ms : List Sent} {chunks : List Bytes}
    (hframed : Framed k ms chunks) (hcolon : ∀ m ∈ ms, colon ∉ m.source.bytes)
    (hends : ∀ m ∈ ms.dropLast, ends m.type = false) (hlen : ∀ chunk ∈ chunks, chunk.length ≤ maximumBufferSize) :
    ∃ handled, receiveLoop ends chunks = some handled ∧ List.Forall₂ Sent.Shows ms handled := by
  induction ms generalizing k chunks with
  | nil =>
    obtain ⟨-, rfl⟩ := hframed
    exact ⟨[], rfl, .nil⟩
  | cons m ms ih =>
    cases chunks with
    | nil => cases hframed
    | cons chunk chunks =>
      obtain ⟨hspells, hcut⟩ := hframed
      have hlen' := hlen chunk (by simp)
      obtain ⟨k', received, hnext, hdec, hshows⟩ : ∃ k' received, Framed k' ms chunks ∧
          decode (recvBuffer chunk) = some (received, m.source) ∧ m.Shows received := by
        rcases hcut with ⟨rfl, hnext⟩ | ⟨hsize, rfl, hnext⟩
        · obtain ⟨received, hdec, hshows⟩ := decode_framed (e := []) hspells (hcolon m (by simp)) (Or.inl rfl)
            (by rw [List.append_nil]; exact hlen')
          rw [List.append_nil] at hdec
          exact ⟨0, received, hnext, hdec, hshows⟩
        · obtain ⟨received, hdec, hshows⟩ := decode_framed hspells (hcolon m (by simp)) (Or.inr hsize) hlen'
          exact ⟨1, received, hnext, hdec, hshows⟩
      simp only [receiveLoop, hdec, Option.bind_eq_bind, Option.bind_some]
      cases hend : ends received.type with
      | true =>
        cases ms with
        | nil => exact ⟨[received], rfl, .cons hshows .nil⟩
        | cons m₂ ms =>
          have hfalse := hends m (by simp)
          rw [hshows.type_eq, hfalse] at hend
          cases hend
      | false =>
        have hlast : ∀ m' ∈ ms.dropLast, ends m'.type = false := by
          intro m' hm'
          cases ms with
          | nil => cases hm'
          | cons m₂ ms => exact hends m' (List.mem_cons_of_mem _ hm')
        obtain ⟨handled, hloop, hrest⟩ := ih hnext (fun m' hm' => hcolon m' (List.mem_cons_of_mem _ hm')) hlast
          fun c hc => hlen c (List.mem_cons_of_mem _ hc)
        exact ⟨received :: handled, by rw [hloop]; rfl, .cons hshows hrest⟩

/-- Message framing.  The loop handles exactly the messages that were sent when their sources hold no colon, none but
the last one ends the loop, and the chunks are cut into one message each; otherwise it does not. -/
theorem message_framing (ends : UInt32 → Bool) {ms : List Sent} {chunks : List Bytes}
    (hlen : ∀ chunk ∈ chunks, 0 < chunk.length ∧ chunk.length ≤ maximumBufferSize)
    (hstream : chunks.flatten = Sent.stream ms) :
    (∃ handled, receiveLoop ends chunks = some handled ∧ List.Forall₂ Sent.Shows ms handled) ↔
      (∀ m ∈ ms, colon ∉ m.source.bytes) ∧ (∀ m ∈ ms.dropLast, ends m.type = false) ∧ Framed 0 ms chunks := by
  constructor
  · rintro ⟨handled, hloop, hshows⟩
    obtain ⟨used, unused, rfl, hshown, hcolon, hends⟩ := shown_of_loop hloop hshows
    refine ⟨hcolon, hends, framed_of_shown hshown (fun chunk hc => ?_) (fun _ => rfl) (fun _ _ => Nat.zero_le _) ?_⟩
    · exact List.length_pos_iff.1 (hlen chunk hc).1
    · rw [← List.flatten_append, hstream, List.drop_zero]
  · rintro ⟨hcolon, hends, hframed⟩
    exact loop_of_framed hframed hcolon hends fun chunk hc => (hlen chunk hc).2

/-- A request of `bob` without data. -/
def bobSends (type : UInt32) : Sent :=
  ⟨type, 0, ⟨ascii "bob", by decide, by decide⟩, ⟨[], by decide, by decide⟩, Or.inl rfl⟩

theorem message_framing_logout :
    (∃ handled, receiveLoop serverEnds [ascii "7:0:bob:", ascii "3:0:bob:"] = some handled ∧
      List.Forall₂ Sent.Shows [bobSends MsgType.leaveSess, bobSends MsgType.exit] handled) ↔
    (∀ m ∈ [bobSends MsgType.leaveSess, bobSends MsgType.exit], colon ∉ m.source.bytes) ∧
      (∀ m ∈ [bobSends MsgType.leaveSess, bobSends MsgType.exit].dropLast, serverEnds m.type = false) ∧
      Framed 0 [bobSends MsgType.leaveSess, bobSends MsgType.exit] [ascii "7:0:bob:", ascii "3:0:bob:"] :=
  message_framing serverEnds (by decide) (by decide)

/-- `logout` sends `LEAVE_SESS` and `EXIT` back to back; received in one chunk, only the first one is handled. -/
theorem message_framing_fails : ¬ ∀ ms : List Sent, ∀ chunks : List Bytes, (∀ m ∈ ms, colon ∉ m.source.bytes) →
    (∀ m ∈ ms.dropLast, serverEnds m.type = false) →
    (∀ chunk ∈ chunks, 0 < chunk.length ∧ chunk.length ≤ maximumBufferSize) → chunks.flatten = Sent.stream ms →
    ∃ handled, receiveLoop serverEnds chunks = some handled ∧ List.Forall₂ Sent.Shows ms handled := by
  intro h
  obtain ⟨handled, hloop, hshows⟩ := h [bobSends MsgType.leaveSess, bobSends MsgType.exit] [ascii "7:0:bob:3:0:bob:"]
    (by decide) (by decide) (by decide) (by decide)
  have hlen : (receiveLoop serverEnds [ascii "7:0:bob:3:0:bob:"]).map List.length = some 1 := by decide
  rw [hloop, Option.map_some, ← hshows.length_eq] at hlen
  cases hlen

end Conferencing
