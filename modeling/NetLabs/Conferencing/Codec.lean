import NetLabs.Conferencing.Message

/-!
# The message codec

`message_to_string` followed by `string_to_message` gives back the type, the size, the source and the counted data
bytes (`message_codec_round_trip`).  Both directions are reduced to the shape `header ++ data` of the text: printing
produces it (`messageToString_eq`), reading takes it apart (`stringToMessage_header`), and whatever can be read has it
(`stringToMessage_some`).
-/

namespace Conferencing

open CText

/-! ### The header -/

theorem colon_not_mem_printD (v : UInt32) : colon ∉ printD v := not_mem_printD (by decide) (by decide)

private theorem nul_not_mem_printD (v : UInt32) : (0 : Byte) ∉ printD v := not_mem_printD (by decide) (by decide)

theorem nul_not_mem_header (type size : UInt32) {source : Bytes} (h : (0 : Byte) ∉ source) :
    (0 : Byte) ∉ header type size source := by
  have := nul_not_mem_printD type
  have := nul_not_mem_printD size
  simp only [header, List.mem_append, List.mem_cons, List.not_mem_nil, or_false, not_or]
  exact ⟨‹_›, by decide, ‹_›, by decide, h, by decide⟩

theorem header_append (type size : UInt32) (source rest : Bytes) :
    header type size source ++ rest =
      printD type ++ colon :: (printD size ++ colon :: (source ++ colon :: rest)) := by
  simp [header]

/-- A header of a message with at most 1000 data bytes. -/
theorem length_header_le (type : UInt32) {size : UInt32} (source : CStr maxName) (hsize : size.toNat ≤ maxData) :
    (header type size source.bytes).length ≤ 34 := by
  rw [maxData_eq] at hsize
  have htype := length_printD_le type
  have hsz := length_printD_of_lt (v := size) (k := 4) (by omega) (by omega) (by omega)
  have hsrc : source.bytes.length < 17 := source.fits
  simp only [header, List.length_append, List.length_cons, List.length_nil]
  omega

/-! ### Printing -/

/-- `sprintf` of a header into an array that has room for it and a full message. -/
private theorem strcpy_header {cap : Nat} {type size : UInt32} {source : CStr maxName} (buffer : CArray cap)
    (hcap : (header type size source.bytes).length + maxData < cap) :
    ∃ rest, ∃ out : CArray cap, buffer.strcpy (header type size source.bytes ++ [0]) = some out ∧
      out.bytes = header type size source.bytes ++ 0 :: rest := by
  have hnul := nul_not_mem_header type size source.nulFree
  refine ⟨buffer.bytes.drop ((header type size source.bytes).length + 1), _,
    buffer.strcpy_append_nul hnul (by omega), ?_⟩
  rw [CArray.bytes_write_zero]
  simp

/-- The buffer after `message_to_string` holds the header, the counted data bytes and a NUL. -/
private theorem messageToString_eq {cap : Nat} {message : Message} {n : UInt32} {source : CStr maxName}
    {data : CStr maxData} (buffer : CArray cap) (hsource : message.source.text? = some source)
    (hdata : message.data.text? = some data) (hn : n.toNat ≤ maxData)
    (hcap : (header message.type n source.bytes).length + maxData < cap) :
    ∃ rest, ∃ out : CArray cap,
      messageToString message n buffer = some (out, (header message.type n source.bytes).length + n.toNat) ∧
      out.bytes = header message.type n source.bytes ++ (message.data.bytes.take n.toNat ++ 0 :: rest) := by
  obtain ⟨rest₁, out₁, hcpy, hbytes₁⟩ := strcpy_header buffer hcap
  have hcstr : cstr out₁.bytes = header message.type n source.bytes := by
    rw [hbytes₁, cstr_append_nul (nul_not_mem_header _ _ source.nulFree)]
  generalize hh : header message.type n source.bytes = h at *
  by_cases h0 : n = 0
  · subst h0
    refine ⟨rest₁, out₁, ?_, by simpa using hbytes₁⟩
    simp [messageToString, hsource, hh, hcpy, hcstr]
  · -- `strcat` needs the closing NUL of the data; the copy loop then overwrites what it wrote
    have hdlen : data.bytes.length < maxData := data.fits
    obtain ⟨drest, hdbytes⟩ := CArray.bytes_of_text? hdata
    have hdcstr : cstr message.data.bytes = data.bytes := by rw [hdbytes, cstr_append_nul data.nulFree]
    have hlen₁ : out₁.bytes.length = cap := out₁.size_eq
    have hcat : out₁.strcat message.data.bytes =
        some (out₁.write h.length (data.bytes ++ [0]) (by simp; omega)) := by
      have hm₁ : (0 : Byte) ∈ out₁.bytes := by rw [hbytes₁]; simp
      have hm₂ : (0 : Byte) ∈ message.data.bytes := by rw [hdbytes]; simp
      simp only [CArray.strcat, hm₁, hm₂, hcstr, hdcstr, true_and, show h.length + data.bytes.length < cap by omega,
        ↓reduceDIte]
    have hcopy : ∀ out : CArray cap, copyLoop id n.toNat message.data.bytes h.length out =
        some (out.write h.length (message.data.bytes.take n.toNat) (by simp; omega)) := by
      intro out
      rw [copyLoop_id (by rw [message.data.size_eq]; exact hn) (by omega)]
    have htake : (message.data.bytes.take n.toNat).length = n.toNat := by
      rw [List.length_take, message.data.size_eq]
      omega
    refine ⟨(out₁.write h.length (data.bytes ++ [0]) (by simp; omega)).bytes.drop (h.length + (n.toNat + 1)),
      (out₁.write h.length (data.bytes ++ [0]) (by simp; omega)).write h.length
      (message.data.bytes.take n.toNat ++ [0]) (by simp; omega), ?_, ?_⟩
    · simp only [messageToString, hsource, hh, hcpy, hcstr, h0, hcat, hcopy, Option.bind_eq_bind, Option.bind_some,
        ↓reduceIte]
      rw [CArray.store_eq_write _ _ (by omega), Option.bind_some]
      have := CArray.write_write (out₁.write h.length (data.bytes ++ [0]) (by simp; omega)) (i := h.length)
        (s := message.data.bytes.take n.toNat) (t := [0]) (by omega) (by simp; omega)
      simp only [htake] at this
      rw [this]
    · have hpre : (out₁.write h.length (data.bytes ++ [0]) (by simp; omega)).bytes.take h.length = h := by
        show (splice out₁.bytes h.length (data.bytes ++ [0])).take h.length = h
        rw [take_splice (by omega), hbytes₁, List.take_left]
      show splice _ h.length (message.data.bytes.take n.toNat ++ [0]) = _
      rw [splice, hpre, List.length_append, htake]
      simp

/-! ### Reading -/

/-- Reading three fields, with any text that fits the scratch array in the first. -/
theorem stringToMessage_fields (content : CArray 12) (message : Message) {type : Bytes} {n : UInt32}
    {source : CStr maxName} {rest : Bytes} (htype : colon ∉ type) (hfit : type.length < 12)
    (hcolon : colon ∉ source.bytes) (hn : n.toNat ≤ maxData) (hrest : n.toNat ≤ rest.length) :
    stringToMessage content message
        (type ++ colon :: (printD n ++ colon :: (source.bytes ++ colon :: rest))) =
      some ⟨atoi type, n, message.source.write 0 source.mem (by rw [source.length_mem]; have := source.fits; omega),
        message.data.write 0 (rest.take n.toNat) (by simp; omega)⟩ := by
  have hsize := length_printD_of_lt (v := n) (k := 4) (by omega) (by rw [maxData_eq] at hn; omega)
    (by rw [maxData_eq] at hn; omega)
  rw [stringToMessage, scanField_eq_some htype (by omega), Option.bind_eq_bind, Option.bind_some]
  dsimp only
  rw [scanField_eq_some (colon_not_mem_printD n) (by omega), Option.bind_eq_bind, Option.bind_some]
  dsimp only
  rw [scanField_eq_some hcolon (by have := source.fits; omega), Option.bind_eq_bind, Option.bind_some]
  dsimp only
  rw [atoi_content, atoi_content, atoi_printD, copyLoop_id hrest (by omega), Option.bind_some]
  rfl

/-- Reading a text that starts with a header. -/
private theorem stringToMessage_header (content : CArray 12) (message : Message) (type : UInt32) {n : UInt32}
    {source : CStr maxName} {rest : Bytes} (hcolon : colon ∉ source.bytes) (hn : n.toNat ≤ maxData)
    (hrest : n.toNat ≤ rest.length) :
    stringToMessage content message (header type n source.bytes ++ rest) =
      some ⟨type, n, message.source.write 0 source.mem (by rw [source.length_mem]; have := source.fits; omega),
        message.data.write 0 (rest.take n.toNat) (by simp; omega)⟩ := by
  have htype := length_printD_le type
  rw [header_append, stringToMessage_fields content message (colon_not_mem_printD type) (by omega) hcolon hn hrest,
    atoi_printD]

/-- `string_to_message` reads `buffer` into `message` and gives `m`: the text is three fields `t`, `n`, `s` closed by
colons, and `rest` has at least as many bytes as the size field says. -/
structure ReadsAs (message m : Message) (buffer t n s rest : Bytes) : Prop where
  buffer_eq : buffer = t ++ colon :: (n ++ colon :: (s ++ colon :: rest))
  type_field : colon ∉ t
  size_field : colon ∉ n
  source_field : colon ∉ s
  source_fits : s.length < maxName
  type_eq : m.type = atoi t
  size_eq : m.size = atoi n
  source_eq : m.source.bytes = s ++ 0 :: message.source.bytes.drop (s.length + 1)
  size_le : m.size.toNat ≤ maxData
  size_le_rest : m.size.toNat ≤ rest.length
  data_eq : m.data.bytes = rest.take m.size.toNat ++ message.data.bytes.drop m.size.toNat

theorem stringToMessage_some {content : CArray 12} {message m : Message} {buffer : Bytes}
    (h : stringToMessage content message buffer = some m) :
    ∃ t n s rest, ReadsAs message m buffer t n s rest := by
  simp only [stringToMessage, Option.bind_eq_bind, Option.bind_eq_some_iff, Prod.exists] at h
  obtain ⟨c₁, b₁, h₁, c₂, b₂, h₂, src, b₃, h₃, data, h₄, hm⟩ := h
  obtain ⟨t, rfl, ht, htfit, rfl⟩ := scanField_some h₁
  obtain ⟨n, rfl, hn, hnfit, rfl⟩ := scanField_some h₂
  obtain ⟨s, rfl, hs, hsfit, rfl⟩ := scanField_some h₃
  rw [atoi_content] at h₄ hm
  rw [atoi_content] at hm
  obtain ⟨hsrc, hfit⟩ := copyLoop_some (Nat.zero_le _) h₄
  rw [copyLoop_id hsrc hfit] at h₄
  rw [Nat.zero_add] at hsfit hfit
  cases h₄
  cases hm
  refine ⟨t, n, s, b₃, rfl, ht, hn, hs, hsfit, rfl, rfl, ?_, hfit, hsrc, ?_⟩
  · dsimp only
    rw [CArray.bytes_write_zero]
    simp
  · dsimp only
    rw [CArray.bytes_write_zero, List.length_take, Nat.min_eq_left hsrc]

/-- The bytes in the scratch array do not matter: each field is closed before it is read. -/
theorem stringToMessage_content (content content' : CArray 12) (message : Message) (buffer : Bytes) :
    stringToMessage content message buffer = stringToMessage content' message buffer := by
  have key : ∀ c c' : CArray 12, ∀ m, stringToMessage c message buffer = some m →
      stringToMessage c' message buffer = some m := by
    intro c c' m h
    simp only [stringToMessage, Option.bind_eq_bind, Option.bind_eq_some_iff, Prod.exists] at h ⊢
    obtain ⟨c₁, b₁, h₁, c₂, b₂, h₂, src, b₃, h₃, data, h₄, hm⟩ := h
    obtain ⟨t, rfl, ht, htfit, rfl⟩ := scanField_some h₁
    obtain ⟨n, rfl, hn, hnfit, rfl⟩ := scanField_some h₂
    rw [atoi_content] at h₄ hm
    rw [atoi_content] at hm
    refine ⟨_, _, scanField_eq_some ht htfit, _, _, scanField_eq_some hn hnfit, src, b₃, h₃, data, ?_, ?_⟩
    · rw [atoi_content]; exact h₄
    · rw [atoi_content, atoi_content]; exact hm
  rcases h : stringToMessage content message buffer with _ | m
  · rcases h' : stringToMessage content' message buffer with _ | m'
    · rfl
    · rw [key _ content _ h'] at h; cases h
  · rw [key _ content' _ h]

/-! ### What `fill_and_send_message` sends -/

/-- The message of a reply or request with text `data` (empty for `NULL`). -/
def reply (type : UInt32) (source : CStr maxName) (data : CStr maxData) : Message where
  type := type
  size := UInt32.ofNat data.bytes.length
  source := (CArray.zero maxName).write 0 source.mem (by rw [source.length_mem]; have := source.fits; omega)
  data := (CArray.zero maxData).write 0 data.mem (by rw [data.length_mem]; have := data.fits; omega)

/-- The bytes sent for it. -/
def wire (type : UInt32) (source : CStr maxName) (data : CStr maxData) : Bytes :=
  header type (UInt32.ofNat data.bytes.length) source.bytes ++ data.bytes

/-- The text behind a pointer that may be `NULL`. -/
def textOrEmpty (data : Option (CStr maxData)) : CStr maxData := data.getD (.empty (by decide))

theorem toNat_length_data (data : CStr maxData) : (UInt32.ofNat data.bytes.length).toNat = data.bytes.length := by
  have : data.bytes.length < 1000 := data.fits
  rw [UInt32.toNat_ofNat']
  omega

private theorem bytes_reply_source (type : UInt32) (source : CStr maxName) (data : CStr maxData) :
    (reply type source data).source.bytes =
      source.bytes ++ 0 :: List.replicate (maxName - (source.bytes.length + 1)) 0 := by
  simp only [reply, CArray.bytes_zero_write, source.length_mem]
  simp [CStr.mem]

private theorem bytes_reply_data (type : UInt32) (source : CStr maxName) (data : CStr maxData) :
    (reply type source data).data.bytes = data.bytes ++ 0 :: List.replicate (maxData - (data.bytes.length + 1)) 0 := by
  simp only [reply, CArray.bytes_zero_write, data.length_mem]
  simp [CStr.mem]

@[simp] theorem text_reply_source (type : UInt32) (source : CStr maxName) (data : CStr maxData) :
    (reply type source data).source.text? = some source :=
  CArray.text?_eq_some (bytes_reply_source type source data)

@[simp] theorem text_reply_data (type : UInt32) (source : CStr maxName) (data : CStr maxData) :
    (reply type source data).data.text? = some data :=
  CArray.text?_eq_some (bytes_reply_data type source data)

private theorem fillMessage_reply {type : UInt32} (htype : type ≠ MsgType.message) (source : CStr maxName)
    (data : Option (CStr maxData)) :
    fillMessage .zero type (UInt32.ofNat (textOrEmpty data).bytes.length) source.mem
      ((data.map CStr.mem).getD []) = some (reply type source (textOrEmpty data)) := by
  have hsource : Message.zero.source.strcpy source.mem = some (reply type source (textOrEmpty data)).source :=
    CArray.strcpy_mem _ source
  have hnat := toNat_length_data (textOrEmpty data)
  by_cases h0 : (textOrEmpty data).bytes = []
  · have hdata : (reply type source (textOrEmpty data)).data = CArray.zero maxData := by
      ext1
      rw [bytes_reply_data, h0]
      rfl
    have hsize : UInt32.ofNat (textOrEmpty data).bytes.length = 0 := by rw [h0]; rfl
    simp only [fillMessage, hsize, ↓reduceIte, hsource, Option.bind_eq_bind, Option.bind_some]
    rw [← hdata, ← hsize]
    rfl
  · have hsize : UInt32.ofNat (textOrEmpty data).bytes.length ≠ 0 := by
      intro h
      rw [h] at hnat
      exact h0 (List.eq_nil_of_length_eq_zero hnat.symm)
    cases data with
    | none => exact absurd rfl h0
    | some data =>
      have hdata : Message.zero.data.strcpy data.mem = some (reply type source data).data :=
        CArray.strcpy_mem _ data
      have hsize' : UInt32.ofNat data.bytes.length ≠ 0 := hsize
      have hsource' : Message.zero.source.strcpy source.mem = some (reply type source data).source := hsource
      simp only [fillMessage, textOrEmpty, Option.getD_some, Option.map_some, hsize', ↓reduceIte, htype, ne_eq,
        not_false_eq_true, hdata, hsource', Option.bind_eq_bind, Option.bind_some]
      rfl

private theorem length_header_data_le (type : UInt32) (source : CStr maxName) (data : CStr maxData) :
    (header type (UInt32.ofNat data.bytes.length) source.bytes).length ≤ 34 :=
  length_header_le type source (by rw [toNat_length_data]; exact Nat.le_of_lt data.fits)

private theorem nul_not_mem_wire (type : UInt32) (source : CStr maxName) (data : CStr maxData) :
    (0 : Byte) ∉ wire type source data := by
  simp only [wire, List.mem_append, not_or]
  exact ⟨nul_not_mem_header _ _ source.nulFree, data.nulFree⟩

private theorem messageToString_reply (type : UInt32) (source : CStr maxName) (data : CStr maxData) :
    ∃ out : CArray maximumBufferSize, ∃ count, messageToString (reply type source data)
      (UInt32.ofNat data.bytes.length) (CArray.zero maximumBufferSize) = some (out, count) ∧
      cstr out.bytes = wire type source data := by
  have hhead := length_header_data_le type source data
  have hnat := toNat_length_data data
  obtain ⟨rest, out, hprint, hout⟩ := messageToString_eq (CArray.zero maximumBufferSize)
    (text_reply_source type source data) (text_reply_data type source data)
    (by rw [hnat]; exact Nat.le_of_lt data.fits)
    (by show (header type (UInt32.ofNat data.bytes.length) source.bytes).length + 1000 < 1200; omega)
  refine ⟨out, _, hprint, ?_⟩
  have htake : (reply type source data).data.bytes.take (UInt32.ofNat data.bytes.length).toNat = data.bytes := by
    rw [hnat, bytes_reply_data, List.take_left]
  rw [hout, htake, ← List.append_assoc]
  exact cstr_append_nul (nul_not_mem_wire type source data)

/-- A reply or request: what is built and what is sent. -/
theorem fillAndSendMessage_eq {type : UInt32} (htype : type ≠ MsgType.message) (source : CStr maxName)
    (data : Option (CStr maxData)) :
    fillAndSendMessage type source data =
      some (reply type source (textOrEmpty data), wire type source (textOrEmpty data)) := by
  obtain ⟨out, count, hprint, hcstr⟩ := messageToString_reply type source (textOrEmpty data)
  have hfill := fillMessage_reply htype source data
  have hsize : (reply type source (textOrEmpty data)).size = UInt32.ofNat (textOrEmpty data).bytes.length := rfl
  cases data with
  | none =>
    have hzero : UInt32.ofNat (textOrEmpty none).bytes.length = 0 := rfl
    rw [hzero] at hfill hprint hsize
    simp only [fillAndSendMessage, hfill, Option.bind_eq_bind, Option.bind_some, hsize, hprint, hcstr]
  | some data =>
    have hsome : (textOrEmpty (some data)).bytes = data.bytes := rfl
    rw [hsome] at hfill hprint hsize
    simp only [fillAndSendMessage, hfill, Option.bind_eq_bind, Option.bind_some, hsize, hprint, hcstr]

/-- The receiver of a whole text reads back the message built by the sender. -/
theorem stringToMessage_wire (content : CArray 12) (type : UInt32) {source : CStr maxName} (data : CStr maxData)
    (hcolon : colon ∉ source.bytes) :
    stringToMessage content .zero (recvBuffer (wire type source data)) = some (reply type source data) := by
  have hnat := toNat_length_data data
  have hfits := data.fits
  rw [recvBuffer, wire, List.append_assoc, stringToMessage_header content _ type hcolon
    (by rw [hnat]; exact Nat.le_of_lt data.fits) (by rw [hnat, List.length_append]; omega)]
  simp only [reply, hnat, List.take_left]
  have hdata : (CArray.zero maxData).write 0 data.bytes (by omega) =
      (CArray.zero maxData).write 0 data.mem (by rw [data.length_mem]; omega) :=
    (CArray.zero_write_nul _).symm
  simp only [Message.zero, hdata]

/-- The type can be read off the bytes. -/
theorem wire_type {type type' : UInt32} {source source' : CStr maxName} {data data' : CStr maxData}
    (h : wire type source data = wire type' source' data') : type = type' := by
  have hcolon : ∀ v, colon ∉ printD v := fun v => not_mem_printD (by decide) (by decide)
  simp only [wire, header, List.append_assoc, List.cons_append] at h
  have htype := (field_unique (hcolon type) (hcolon type') h).1
  rw [← atoi_printD type, htype, atoi_printD]

/-! ### Chat messages -/

private theorem nul_not_mem_blankNul (data : Bytes) : (0 : Byte) ∉ data.map blankNul := by
  intro h
  obtain ⟨b, -, hb⟩ := List.mem_map.1 h
  unfold blankNul at hb
  split at hb
  · cases hb
  · exact absurd hb ‹_›

/-- The text that `fill_message` puts into a `MESSAGE` of size `n`. -/
def chatText (n : UInt32) (data : Bytes) (hn : n.toNat ≤ maxData) : CStr maxData where
  bytes := (data.take (n.toNat - 1)).map blankNul
  nulFree := nul_not_mem_blankNul _
  fits := by
    have h1000 : n.toNat ≤ 1000 := hn
    show _ < 1000
    rw [List.length_map, List.length_take]
    omega

/-- The bytes sent for a `MESSAGE`: the size field counts the NUL, which is not sent. -/
def chatWire (n : UInt32) (source : CStr maxName) (text : CStr maxData) : Bytes :=
  header MsgType.message n source.bytes ++ text.bytes

/-- `r` is a `MESSAGE` of size `n` whose counted bytes are those of a text and, when there are any, a NUL. -/
structure IsChat (r : Message) (n : UInt32) (source : CStr maxName) (text : CStr maxData) : Prop where
  type_eq : r.type = MsgType.message
  size_eq : r.size = n
  source_text : r.source.text? = some source
  data_text : r.data.text? = some text
  size_text : n.toNat = text.bytes.length + 1 ∨ n = 0 ∧ text.bytes = []

theorem IsChat.counted {r : Message} {n : UInt32} {source : CStr maxName} {text : CStr maxData}
    (h : IsChat r n source text) :
    r.data.bytes.take n.toNat = text.bytes ++ [0] ∨ r.data.bytes.take n.toNat = text.bytes := by
  obtain ⟨rest, hrest⟩ := CArray.bytes_of_text? h.data_text
  rcases h.size_text with hn | ⟨rfl, ht⟩
  · left
    rw [hrest, hn, List.take_length_add_append]
    simp
  · right
    simp [ht]

/-- What is printed for a `MESSAGE`. -/
theorem IsChat.messageToString {r : Message} {n : UInt32} {source : CStr maxName} {text : CStr maxData}
    (h : IsChat r n source text) {cap : Nat} (buffer : CArray cap) (hcap : 1034 < cap) :
    ∃ out count, messageToString r r.size buffer = some (out, count) ∧ cstr out.bytes = chatWire n source text := by
  have hn : n.toNat ≤ maxData := by
    have := text.fits
    rcases h.size_text with hn | ⟨rfl, -⟩
    · omega
    · exact Nat.zero_le _
  have hhead := length_header_le r.type source hn
  obtain ⟨rest, out, hprint, hout⟩ := messageToString_eq buffer h.source_text h.data_text hn
    (by show (header r.type n source.bytes).length + 1000 < cap; omega)
  refine ⟨out, _, by rw [h.size_eq]; exact hprint, ?_⟩
  have hnul : (0 : Byte) ∉ chatWire n source text := by
    simp only [chatWire, List.mem_append, not_or]
    exact ⟨nul_not_mem_header _ _ source.nulFree, text.nulFree⟩
  rw [hout, h.type_eq, ← List.append_assoc]
  rcases h.counted with hc | hc
  · have hsplit : header MsgType.message n source.bytes ++ r.data.bytes.take n.toNat ++ 0 :: rest =
        chatWire n source text ++ 0 :: 0 :: rest := by
      rw [hc, chatWire]
      simp
    rw [hsplit, cstr_append_nul hnul]
  · rw [hc]
    exact cstr_append_nul hnul

theorem fillMessage_chat (message : Message) {n : UInt32} (hn : n.toNat ≤ maxData) (source : CStr maxName)
    {data : Bytes} (hlen : n.toNat ≤ data.length) :
    ∃ r, fillMessage message MsgType.message n source.mem data = some r ∧
      IsChat r n source (chatText n data hn) := by
  have hsource := message.source.strcpy_mem source
  have hstext : (message.source.write 0 source.mem
      (by rw [source.length_mem]; have := source.fits; omega)).text? = some source := by
    apply CArray.text?_eq_some
    rw [CArray.bytes_write_zero, source.length_mem, CStr.mem, List.append_assoc]
    rfl
  by_cases h0 : n = 0
  · subst h0
    refine ⟨_, by simp only [fillMessage, ↓reduceIte, Option.bind_eq_bind, Option.bind_some, hsource]; rfl, rfl, rfl,
      hstext, ?_, Or.inr ⟨rfl, rfl⟩⟩
    rfl
  · have hpos : 0 < n.toNat := Nat.pos_of_ne_zero fun h => h0 (UInt32.toNat_inj.1 h)
    have htext : (chatText n data hn).bytes.length = n.toNat - 1 := by
      simp only [chatText, List.length_map, List.length_take]
      omega
    have hcopy : copyLoop blankNul n.toNat data 0 message.data =
        some (message.data.write 0 ((data.take n.toNat).map blankNul) (by simp; omega)) :=
      copyLoop_eq_some hlen (by omega)
    refine ⟨_, by
      simp only [fillMessage, h0, ↓reduceIte, ne_eq, not_true_eq_false, Option.bind_eq_bind, hcopy, Option.bind_some,
        CArray.store_eq_write _ _ (show n.toNat - 1 < maxData by omega), hsource]
      rfl, rfl, rfl, hstext, ?_, Or.inl (by omega)⟩
    -- the last copied byte is overwritten, the ones before it are the text
    have htake : ((message.data.write 0 ((data.take n.toNat).map blankNul)
        (by simp; omega)).bytes.take (n.toNat - 1)) = (chatText n data hn).bytes := by
      rw [CArray.bytes_write_zero, List.take_append_of_le_length (by simp; omega), ← List.map_take, List.take_take,
        Nat.min_eq_left (by omega)]
      rfl
    apply CArray.text?_eq_some
    show splice _ (n.toNat - 1) [0] = _
    rw [splice, htake, List.append_assoc]
    rfl

/-- What the receiver of a chat message reads. -/
theorem stringToMessage_chatWire (content : CArray 12) {n : UInt32} {source : CStr maxName} {text : CStr maxData}
    (hcolon : colon ∉ source.bytes) (hsize : n.toNat = text.bytes.length + 1 ∨ n = 0 ∧ text.bytes = []) :
    ∃ m, stringToMessage content .zero (recvBuffer (chatWire n source text)) = some m ∧ IsChat m n source text := by
  have hfits := text.fits
  have hbound : maxData = 1000 := rfl
  have hn : n.toNat ≤ maxData := by
    rcases hsize with hn | ⟨rfl, -⟩
    · omega
    · exact Nat.zero_le _
  have hhead := length_header_le MsgType.message source hn
  have hzeros : 1 ≤ maximumBufferSize - (header MsgType.message n source.bytes ++ text.bytes).length := by
    rw [List.length_append]
    show 1 ≤ 1200 - _
    omega
  generalize hk : maximumBufferSize - (header MsgType.message n source.bytes ++ text.bytes).length = k at hzeros
  obtain ⟨k, rfl⟩ : ∃ j, k = j + 1 := ⟨k - 1, by omega⟩
  have hlen : n.toNat ≤ (text.bytes ++ List.replicate (k + 1) 0).length := by
    rw [List.length_append, List.length_replicate]
    rcases hsize with hn | ⟨rfl, -⟩
    · omega
    · exact Nat.zero_le _
  refine ⟨_, by rw [recvBuffer, chatWire, hk, List.append_assoc,
    stringToMessage_header content _ MsgType.message hcolon hn hlen], rfl, rfl, ?_, ?_, hsize⟩
  · apply CArray.text?_eq_some
    rw [CArray.bytes_write_zero, source.length_mem, CStr.mem, List.append_assoc]
    rfl
  · have hrest : ∃ rest, ((CArray.zero maxData).write 0 ((text.bytes ++ List.replicate (k + 1) 0).take n.toNat)
        (by simp; omega)).bytes = text.bytes ++ 0 :: rest := by
      rw [CArray.bytes_zero_write]
      rcases hsize with hn | ⟨rfl, ht⟩
      · rw [hn, List.take_length_add_append, List.append_assoc]
        exact ⟨_, rfl⟩
      · exact ⟨List.replicate 999 0, by rw [ht]; rfl⟩
    exact CArray.text?_eq_some hrest.choose_spec

/-! ### The round trip -/

/-- All NULs of `d` stand at its end. -/
def TrailingNuls (d : Bytes) : Prop := ∃ t k, (0 : Byte) ∉ t ∧ d = t ++ List.replicate k 0

private theorem cstr_trailing {h t rest : Bytes} {k : Nat} (hh : (0 : Byte) ∉ h) (ht : (0 : Byte) ∉ t) :
    cstr (h ++ (t ++ List.replicate k 0 ++ 0 :: rest)) = h ++ t := by
  have hsplit : h ++ (t ++ List.replicate k 0 ++ 0 :: rest) = (h ++ t) ++ 0 :: (List.replicate k 0 ++ rest) := by
    have : List.replicate k (0 : Byte) ++ 0 :: rest = 0 :: (List.replicate k 0 ++ rest) := by
      induction k with
      | zero => rfl
      | succ k ih => rw [List.replicate_succ, List.cons_append, ih, List.cons_append]
    simp only [List.append_assoc, this]
  rw [hsplit, cstr_append_nul]
  simp only [List.mem_append, not_or]
  exact ⟨hh, ht⟩

private theorem take_recv {h t : Bytes} {k : Nat} (hlen : h.length + (t.length + k) ≤ maximumBufferSize) :
    (t ++ List.replicate (maximumBufferSize - (h ++ t).length) 0).take (t.length + k) =
      t ++ List.replicate k 0 := by
  rw [List.take_length_add_append, List.take_replicate, List.length_append, Nat.min_eq_left (by omega)]

/-- The message codec: printing a message and reading the buffer gives back the type, the size, the source and the
counted data bytes, whatever they are.  If all NULs among the data bytes are trailing, reading only the `strlen` bytes
that are sent, received into a zeroed buffer, gives the same message. -/
theorem message_codec_round_trip (content : CArray 12) (message m₀ : Message) (n : UInt32)
    (buffer : CArray maximumBufferSize) (source : CStr maxName) (data : CStr maxData)
    (hsource : message.source.text? = some source) (hcolon : colon ∉ source.bytes)
    (hdata : message.data.text? = some data) (hn : n.toNat ≤ maxData) :
    ∃ out : CArray maximumBufferSize, ∃ count m,
      messageToString message n buffer = some (out, count) ∧
      stringToMessage content m₀ out.bytes = some m ∧
      m.type = message.type ∧ m.size = n ∧ m.source.text? = some source ∧
      m.data.bytes.take n.toNat = message.data.bytes.take n.toNat ∧
      (TrailingNuls (message.data.bytes.take n.toNat) →
        stringToMessage content m₀ (recvBuffer (cstr out.bytes)) = some m) := by
  have hhead := length_header_le message.type source hn
  have hbound : maxData = 1000 := rfl
  have hcap : (header message.type n source.bytes).length + maxData < maximumBufferSize := by
    show _ < 1200
    omega
  obtain ⟨rest, out, hprint, hout⟩ := messageToString_eq buffer hsource hdata hn hcap
  have hdlen : (message.data.bytes.take n.toNat).length = n.toNat := by
    rw [List.length_take, message.data.size_eq]
    omega
  have hread := fun (rest' : Bytes) (h : n.toNat ≤ rest'.length) =>
    stringToMessage_header content m₀ message.type hcolon hn h
  have htake : (message.data.bytes.take n.toNat ++ 0 :: rest).take n.toNat = message.data.bytes.take n.toNat := by
    rw [List.take_append_of_le_length (by omega), List.take_of_length_le (by omega)]
  have hm := hread (message.data.bytes.take n.toNat ++ 0 :: rest) (by rw [List.length_append, hdlen]; omega)
  rw [← hout] at hm
  refine ⟨out, _, _, hprint, hm, rfl, rfl, ?_, ?_, ?_⟩
  · have hbytes : (m₀.source.write 0 source.mem
        (by rw [source.length_mem]; have := source.fits; omega)).bytes =
        source.bytes ++ 0 :: m₀.source.bytes.drop (source.bytes.length + 1) := by
      rw [CArray.bytes_write_zero, source.length_mem]
      simp [CStr.mem]
    exact CArray.text?_eq_some hbytes
  · rw [CArray.bytes_write_zero, htake, List.take_append_of_le_length (by omega),
      List.take_of_length_le (by omega)]
  · rintro ⟨t, k, ht, hd⟩
    -- only the header and `t` are sent; the zeroed buffer supplies the trailing NULs
    have hk : t.length + k = n.toNat := by
      rw [← hdlen, hd]
      simp
    have hsent : cstr out.bytes = header message.type n source.bytes ++ t := by
      rw [hout, hd]
      exact cstr_trailing (nul_not_mem_header _ _ source.nulFree) ht
    have hlen : (header message.type n source.bytes).length + (t.length + k) ≤ maximumBufferSize := by omega
    rw [hsent, recvBuffer, List.append_assoc, hread _ (by
      rw [List.length_append, List.length_replicate, List.length_append]
      omega)]
    simp only [htake]
    simp only [← hk, take_recv hlen, ← hd]

theorem message_codec_round_trip_kick :
    ∃ out : CArray maximumBufferSize, ∃ count m,
      messageToString (Message.mk MsgType.kick 5 ((CArray.zero _).write 0 (ascii "bob") (by decide))
        ((CArray.zero _).write 0 [97, 58, 0, 0, 0] (by decide))) 5 (CArray.zero _) = some (out, count) ∧
      stringToMessage (CArray.zero 12) .zero out.bytes = some m ∧
      m.type = MsgType.kick ∧ m.size = 5 ∧ m.source.text? = some ⟨ascii "bob", by decide, by decide⟩ ∧
      m.data.bytes.take 5 = ((CArray.zero maxData).write 0 [97, 58, 0, 0, 0] (by decide)).bytes.take 5 ∧
      (TrailingNuls (((CArray.zero maxData).write 0 [97, 58, 0, 0, 0] (by decide)).bytes.take 5) →
        stringToMessage (CArray.zero 12) .zero (recvBuffer (cstr out.bytes)) = some m) :=
  message_codec_round_trip (CArray.zero 12) _ .zero 5 (CArray.zero _) ⟨ascii "bob", by decide, by decide⟩
    ⟨[97, 58], by decide, by decide⟩ (by decide) (by decide) (by decide) (by decide)

/-! ### What can be read at all -/

/-- A received text from which a message can be read: three fields that fit their arrays, each closed by a colon, and a
size that fits `data`. -/
def Readable (chunk : Bytes) : Prop :=
  ∃ t n s rest, chunk = t ++ colon :: (n ++ colon :: (s ++ colon :: rest)) ∧ (colon ∉ t ∧ t.length < 12) ∧
    (colon ∉ n ∧ n.length < 12) ∧ (colon ∉ s ∧ s.length < maxName) ∧ (atoi n).toNat ≤ maxData

/-- The decoder stays inside the buffer and its arrays if and only if what was received is readable.  The zeroed rest of
the buffer closes no field, and it is long enough for every size that fits. -/
theorem decoder_safe_iff (content : CArray 12) (message : Message) (chunk : Bytes) :
    (∃ m, stringToMessage content message (recvBuffer chunk) = some m) ↔ Readable chunk := by
  have hz : colon ∉ List.replicate (maximumBufferSize - chunk.length) (0 : Byte) := by
    intro hmem
    exact absurd (List.eq_of_mem_replicate hmem) (by decide)
  constructor
  · rintro ⟨m, hm⟩
    simp only [stringToMessage, Option.bind_eq_bind, Option.bind_eq_some_iff, Prod.exists] at hm
    obtain ⟨c₁, b₁, h₁, c₂, b₂, h₂, source, b₃, h₃, data, h₄, -⟩ := hm
    obtain ⟨t, heq, ht, htfit, rfl⟩ := scanField_some h₁
    obtain ⟨n, rfl, hn, hnfit, rfl⟩ := scanField_some h₂
    obtain ⟨s, rfl, hs, hsfit, rfl⟩ := scanField_some h₃
    rw [atoi_content] at h₄
    obtain ⟨-, hsize⟩ := copyLoop_some (Nat.zero_le _) h₄
    obtain ⟨d₁, rfl, h₁⟩ := field_of_append hz heq
    obtain ⟨d₂, rfl, h₂⟩ := field_of_append hz h₁.symm
    obtain ⟨d₃, rfl, -⟩ := field_of_append hz h₂.symm
    refine ⟨t, n, s, d₃, rfl, ⟨ht, ?_⟩, ⟨hn, ?_⟩, ⟨hs, ?_⟩, ?_⟩ <;> omega
  · rintro ⟨t, n, s, rest, rfl, ⟨ht, htfit⟩, ⟨hn, hnfit⟩, ⟨hs, hsfit⟩, hsize⟩
    have hsize' : (atoi n).toNat ≤ 1000 := hsize
    have hsfit' : s.length < 17 := hsfit
    generalize hk : maximumBufferSize - (t ++ colon :: (n ++ colon :: (s ++ colon :: rest))).length = k at hz
    have hroom : (atoi n).toNat ≤ (rest ++ List.replicate k 0).length := by
      simp only [List.length_append, List.length_cons, maximumBufferSize] at hk
      rw [List.length_append, List.length_replicate]
      omega
    rw [← Option.isSome_iff_exists, recvBuffer, hk]
    simp only [List.append_assoc, List.cons_append]
    rw [stringToMessage, scanField_eq_some ht (by omega)]
    simp only [Option.bind_eq_bind, Option.bind_some]
    rw [scanField_eq_some hn (by omega)]
    simp only [Option.bind_some]
    rw [scanField_eq_some hs (by omega)]
    simp only [Option.bind_some, atoi_content]
    rw [copyLoop_id hroom (by omega), Option.bind_some]
    rfl

/-- The first field of a text without a colon is never closed. -/
theorem decoder_safe_fails :
    (ascii "hello").length ≤ maximumBufferSize ∧
      ¬ ∃ m, stringToMessage (CArray.zero 12) .zero (recvBuffer (ascii "hello")) = some m := by
  refine ⟨by decide, ?_⟩
  rintro ⟨m, hm⟩
  obtain ⟨t, n, s, rest, hread⟩ := stringToMessage_some hm
  have hmem : colon ∈ recvBuffer (ascii "hello") := by
    rw [hread.buffer_eq]
    simp
  rw [recvBuffer, List.mem_append] at hmem
  rcases hmem with hmem | hmem
  · exact absurd hmem (by decide)
  · exact absurd (List.eq_of_mem_replicate hmem) (by decide)

end Conferencing
