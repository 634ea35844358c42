import NetLabs.Lib.Decimal

/-!
# Packets and acknowledgements (`packets/packet.c`, `packets/ack.c`)

A packet travels as the text `<total_frag>:<frag_no>:<size>:<filename>:filedata`, an acknowledgement as
`<total_fragment>:<fragment_no>:<received>:`.  Every access to an array is checked; `none` is undefined behaviour.
-/

namespace FileTransfer

open CText

abbrev fileFragSize : Nat := 1000
abbrev sendingBufferSize : Nat := 2000
abbrev nameLength : Nat := 256

/-- `':'`. -/
abbrev colon : Byte := 58

/-! ### Packets -/

/-- `struct packet`, with the text behind the pointer `filename`. -/
structure Packet where
  totalFrag : UInt32
  fragNo : UInt32
  size : UInt32
  filename : Bytes
  filedata : CArray fileFragSize
  deriving DecidableEq

/-- A packet after `memset`. -/
def Packet.zero : Packet := ⟨0, 0, 0, [], CArray.zero fileFragSize⟩

/-- `write_packets`. -/
def writePackets (totalFrag fragNumber fragSize : UInt32) (fileName : CStr nameLength) (data : Bytes) :
    Option Packet := do
  let filedata ← copyLoop id fragSize.toNat data 0 (CArray.zero fileFragSize)
  some ⟨totalFrag, fragNumber, fragSize, fileName.bytes, filedata⟩

/-- What `sprintf(data, "%d:%d:%d:%s:", total_frag, frag_no, size, filename)` prints. -/
def packetHeader (totalFrag fragNo size : UInt32) (filename : Bytes) : Bytes :=
  printD totalFrag ++ colon :: (printD fragNo ++ colon :: (printD size ++ colon :: (filename ++ [colon])))

/-- `convert_to_string`: the array and the length returned. -/
def convertToString (p : Packet) (data : CArray sendingBufferSize) (filename : CStr nameLength) :
    Option (CArray sendingBufferSize × Nat) := do
  let data ← data.strcpy (packetHeader p.totalFrag p.fragNo p.size filename.bytes ++ [0])
  let startPoint := (cstr data.bytes).length
  let data ← copyLoop id p.size.toNat p.filedata.bytes startPoint data
  some (data, startPoint + p.size.toNat)

/-- `buffer_to_packet`, with the uninitialised scratch array `content` as an argument. -/
def bufferToPacket (content : CArray 12) (p : Packet) (name : CArray nameLength) (data : Bytes) :
    Option (Packet × CArray nameLength) := do
  let (content, data) ← scanField colon 0 data 0 content
  let totalFrag := atoi content.bytes
  let (content, data) ← scanField colon 0 data 0 content
  let fragNo := atoi content.bytes
  let (content, data) ← scanField colon 0 data 0 content
  let size := atoi content.bytes
  let (name, data) ← scanField colon 0 data 0 name
  let filedata ← copyLoop id size.toNat data 0 p.filedata
  some (⟨totalFrag, fragNo, size, cstr name.bytes, filedata⟩, name)

/-! ### Acknowledgements -/

/-- `struct ack_packet`. -/
structure AckPacket where
  totalFragment : UInt32
  fragmentNo : UInt32
  received : Byte
  deriving DecidableEq

/-- `recevd`. -/
abbrev recevd : Byte := 1

/-- `fill_the_ack`. -/
def fillTheAck (tf fn : UInt32) (recv : Byte) : AckPacket := ⟨tf, fn, recv⟩

/-- A `char` passed to `printf`: it is signed. -/
def promote (b : Byte) : UInt32 := if b.toNat < 128 then UInt32.ofNat b.toNat else UInt32.ofNat (2 ^ 32 - 256 + b.toNat)

/-- What `sprintf(data, "%d:%d:%d:", total_fragment, fragment_no, received)` prints. -/
def ackText (p : AckPacket) : Bytes :=
  printD p.totalFragment ++ colon :: (printD p.fragmentNo ++ colon :: (printD (promote p.received) ++ [colon]))

/-- `ack_to_buffer`. -/
def ackToBuffer (p : AckPacket) (data : CArray nameLength) : Option (CArray nameLength) := data.strcpy (ackText p ++ [0])

/-- `buffer_to_ack`, with the uninitialised scratch array `content` as an argument.  Each field is closed with a newline;
the last number is stored in a `char`. -/
def bufferToAck (content : CArray 12) (data : Bytes) : Option AckPacket := do
  let (content, data) ← scanField colon 10 data 0 content
  let totalFragment ← content.atoi?
  let (content, data) ← scanField colon 10 data 0 content
  let fragmentNo ← content.atoi?
  let (content, _) ← scanField colon 10 data 0 content
  let received ← content.atoi?
  some ⟨totalFragment, fragmentNo, UInt8.ofNat received.toNat⟩

private theorem nul_not_mem_ackText (p : AckPacket) : (0 : Byte) ∉ ackText p := by
  have hd : ∀ v, (0 : Byte) ∉ printD v := fun v => not_mem_printD (by decide) (by decide)
  simp only [ackText, List.mem_append, List.mem_cons, List.not_mem_nil, or_false, not_or]
  exact ⟨hd _, by decide, hd _, by decide, hd _, by decide⟩

private theorem length_ackText_le (p : AckPacket) : (ackText p).length ≤ 36 := by
  have h₁ := length_printD_le p.totalFragment
  have h₂ := length_printD_le p.fragmentNo
  have h₃ := length_printD_le (promote p.received)
  simp only [ackText, List.length_append, List.length_cons, List.length_nil]
  omega

/-- An acknowledgement always fits. -/
theorem ackToBuffer_eq (p : AckPacket) (data : CArray nameLength) :
    ∃ out, ackToBuffer p data = some out ∧ cstr out.bytes = ackText p := by
  have hlen := length_ackText_le p
  refine ⟨_, data.strcpy_append_nul (nul_not_mem_ackText p) (show (ackText p).length < 256 by omega), ?_⟩
  rw [CArray.bytes_write_zero, List.append_assoc, List.singleton_append, cstr_append_nul (nul_not_mem_ackText p)]

/-- A promoted `char` is recovered from the low byte. -/
private theorem ofNat_promote (b : Byte) : UInt8.ofNat (promote b).toNat = b := by
  apply UInt8.toNat_inj.1
  have hlt := b.toNat_lt
  unfold promote
  split <;> simp only [UInt8.toNat_ofNat', UInt32.toNat_ofNat'] <;> omega

/-- Scanning a printed number and reading it, whatever the scratch array held before. -/
private theorem scanField_printD (content : CArray 12) (v : UInt32) (rest : Bytes) :
    ∃ content', scanField colon 10 (printD v ++ colon :: rest) 0 content = some (content', rest) ∧
      content'.atoi? = some v := by
  have hlen := length_printD_le v
  have hcolon : colon ∉ printD v := not_mem_printD (by decide) (by decide)
  exact ⟨_, scanField_eq_some hcolon (by omega), content.atoi?_write_printD v (by decide) _⟩

/-- Reading the text of an acknowledgement, whatever follows it. -/
private theorem bufferToAck_ackText (content : CArray 12) (p : AckPacket) (rest : Bytes) :
    bufferToAck content (ackText p ++ rest) = some p := by
  have htext : ackText p ++ rest = printD p.totalFragment ++ colon ::
      (printD p.fragmentNo ++ colon :: (printD (promote p.received) ++ colon :: rest)) := by
    simp only [ackText, List.append_assoc, List.cons_append, List.nil_append]
  obtain ⟨content₁, hscan₁, hval₁⟩ := scanField_printD content p.totalFragment
    (printD p.fragmentNo ++ colon :: (printD (promote p.received) ++ colon :: rest))
  obtain ⟨content₂, hscan₂, hval₂⟩ := scanField_printD content₁ p.fragmentNo (printD (promote p.received) ++ colon :: rest)
  obtain ⟨content₃, hscan₃, hval₃⟩ := scanField_printD content₂ (promote p.received) rest
  simp only [bufferToAck, htext, hscan₁, hval₁, hscan₂, hval₂, hscan₃, hval₃, ofNat_promote, Option.bind_eq_bind,
    Option.bind_some]

/-- The round trip of acknowledgements: for all three fields, and whatever the two arrays held before. -/
theorem ack_round_trip (p : AckPacket) (data : CArray nameLength) (content : CArray 12) :
    ∃ out, ackToBuffer p data = some out ∧ bufferToAck content out.bytes = some p := by
  have hlen := length_ackText_le p
  refine ⟨_, data.strcpy_append_nul (nul_not_mem_ackText p) (show (ackText p).length < 256 by omega), ?_⟩
  rw [CArray.bytes_write_zero, List.append_assoc]
  exact bufferToAck_ackText content p _

/-! ### Packets round trip -/

section RoundTrip

variable {totalFrag fragNo size : UInt32} {filename : CStr nameLength}

theorem nul_not_mem_packetHeader (totalFrag fragNo size : UInt32) (filename : CStr nameLength) :
    (0 : Byte) ∉ packetHeader totalFrag fragNo size filename.bytes := by
  have hd : ∀ v, (0 : Byte) ∉ printD v := fun v => not_mem_printD (by decide) (by decide)
  simp only [packetHeader, List.mem_append, List.mem_cons, List.not_mem_nil, or_false, not_or]
  exact ⟨hd _, by decide, hd _, by decide, hd _, by decide, filename.nulFree, by decide⟩

theorem length_packetHeader_le (totalFrag fragNo size : UInt32) (filename : CStr nameLength) :
    (packetHeader totalFrag fragNo size filename.bytes).length ≤ 292 := by
  have h₁ := length_printD_le totalFrag
  have h₂ := length_printD_le fragNo
  have h₃ := length_printD_le size
  have h₄ : filename.bytes.length < 256 := filename.fits
  simp only [packetHeader, List.length_append, List.length_cons, List.length_nil]
  omega

/-- What the array holds after `convert_to_string`: the header, the counted data, and then what was there before.  The
NUL that `sprintf` puts behind the header is not counted; the first data byte is written over it. -/
private theorem convertToString_bytes (p : Packet) (data : CArray sendingBufferSize) (filename : CStr nameLength)
    (hsize : p.size.toNat ≤ fileFragSize) :
    ∃ out count, convertToString p data filename = some (out, count) ∧
      count = (packetHeader p.totalFrag p.fragNo p.size filename.bytes).length + p.size.toNat ∧
      out.bytes.take count =
        packetHeader p.totalFrag p.fragNo p.size filename.bytes ++ p.filedata.bytes.take p.size.toNat ∧
      ∀ k, count ≤ k → (packetHeader p.totalFrag p.fragNo p.size filename.bytes).length < k →
        out.bytes.drop k = data.bytes.drop k := by
  have hlen := length_packetHeader_le p.totalFrag p.fragNo p.size filename
  have hnul := nul_not_mem_packetHeader p.totalFrag p.fragNo p.size filename
  generalize hh : packetHeader p.totalFrag p.fragNo p.size filename.bytes = h at *
  have hsize' : p.size.toNat ≤ 1000 := hsize
  have hfit : 0 + (h ++ [0]).length ≤ sendingBufferSize := by
    simp only [List.length_append, List.length_singleton, sendingBufferSize]
    omega
  have hend : h.length + p.size.toNat ≤ sendingBufferSize := show _ ≤ 2000 by omega
  have hcpy := data.strcpy_append_nul hnul (show h.length < 2000 by omega)
  have hcstr : cstr (data.write 0 (h ++ [0]) hfit).bytes = h := by
    rw [CArray.bytes_write_zero, List.append_assoc, List.singleton_append, cstr_append_nul hnul]
  have hcopy : copyLoop id p.size.toNat p.filedata.bytes h.length (data.write 0 (h ++ [0]) hfit) = _ :=
    copyLoop_id (by rw [p.filedata.size_eq]; exact hsize) hend
  have htake : (p.filedata.bytes.take p.size.toNat).length = p.size.toNat := by
    rw [List.length_take, p.filedata.size_eq]
    exact Nat.min_eq_left hsize
  have hpre : (data.write 0 (h ++ [0]) hfit).bytes.take h.length = h := by
    rw [CArray.bytes_write_zero, List.append_assoc, List.take_left]
  have hin : h.length ≤ (data.write 0 (h ++ [0]) hfit).bytes.length := by
    rw [CArray.size_eq]
    omega
  refine ⟨_, _, by simp only [convertToString, hh, hcpy, hcstr, hcopy, Option.bind_eq_bind, Option.bind_some]; rfl,
    rfl, ?_, fun k hk hk' => ?_⟩
  · show (splice _ h.length _).take _ = _
    rw [splice, hpre, List.take_left' (by rw [List.length_append, htake])]
  · show (splice _ h.length _).drop k = _
    rw [drop_splice hin (by rw [htake]; exact hk)]
    show (splice data.bytes 0 (h ++ [0])).drop k = _
    rw [drop_splice (Nat.zero_le _) (by simp only [List.length_append, List.length_singleton]; omega)]

/-- The bytes that are sent: the header and the counted data. -/
theorem convertToString_eq {p : Packet} (data : CArray sendingBufferSize) (hsize : p.size.toNat ≤ fileFragSize) :
    ∃ out count, convertToString p data filename = some (out, count) ∧ out.bytes.take count =
      packetHeader p.totalFrag p.fragNo p.size filename.bytes ++ p.filedata.bytes.take p.size.toNat := by
  obtain ⟨out, count, hconv, -, hbytes, -⟩ := convertToString_bytes p data filename hsize
  exact ⟨out, count, hconv, hbytes⟩

/-- `data` starts with the four fields of a packet; each is closed by a colon and fits the array it is read into. -/
structure Fields (data t f n s rest : Bytes) : Prop where
  data_eq : data = t ++ colon :: (f ++ colon :: (n ++ colon :: (s ++ colon :: rest)))
  total_field : colon ∉ t ∧ t.length < 12
  number_field : colon ∉ f ∧ f.length < 12
  size_field : colon ∉ n ∧ n.length < 12
  name_field : colon ∉ s ∧ s.length < nameLength

section Reading

variable {data t f n s rest : Bytes}

theorem cstr_write_nul {k : Nat} (a : CArray k) (h : 0 + (s ++ [0]).length ≤ k) :
    cstr (a.write 0 (s ++ [0]) h).bytes = cstr s := by
  rw [CArray.bytes_write_zero, List.append_assoc, List.singleton_append]
  by_cases h0 : (0 : Byte) ∈ s
  · obtain ⟨tail, htail⟩ := eq_cstr_append h0
    rw [htail, List.append_assoc, List.cons_append, cstr_append_nul (nulFree_cstr _), cstr_append_nul (nulFree_cstr _)]
  · rw [cstr_append_nul h0, cstr_of_nulFree h0]

/-- Reading four fields and the data bytes that the third one counts. -/
theorem bufferToPacket_fields (content : CArray 12) (p : Packet) (name : CArray nameLength)
    (h : Fields data t f n s rest) (hsize : (atoi n).toNat ≤ fileFragSize) (hrest : (atoi n).toNat ≤ rest.length) :
    bufferToPacket content p name data =
      some (⟨atoi t, atoi f, atoi n, cstr s,
          p.filedata.write 0 (rest.take (atoi n).toNat) (by simp only [List.length_take]; omega)⟩,
        name.write 0 (s ++ [0]) (by have := h.name_field.2; simp only [List.length_append, List.length_singleton]; omega)) := by
  have hdata := h.data_eq
  subst hdata
  rw [bufferToPacket, scanField_eq_some h.total_field.1 (by have := h.total_field.2; omega)]
  simp only [Option.bind_eq_bind, Option.bind_some]
  rw [scanField_eq_some h.number_field.1 (by have := h.number_field.2; omega)]
  simp only [Option.bind_some]
  rw [scanField_eq_some h.size_field.1 (by have := h.size_field.2; omega)]
  simp only [Option.bind_some]
  rw [scanField_eq_some h.name_field.1 (by have := h.name_field.2; omega)]
  simp only [Option.bind_some, atoi_content]
  rw [copyLoop_id hrest (by omega), Option.bind_some]
  simp only [cstr_write_nul]

/-- Whatever is read has that shape. -/
theorem bufferToPacket_some {content : CArray 12} {p r : Packet} {name name' : CArray nameLength}
    (h : bufferToPacket content p name data = some (r, name')) :
    ∃ t f n s rest, Fields data t f n s rest ∧ (atoi n).toNat ≤ fileFragSize ∧ (atoi n).toNat ≤ rest.length ∧
      r.size = atoi n ∧ r.filename = cstr s := by
  simp only [bufferToPacket, Option.bind_eq_bind, Option.bind_eq_some_iff, Prod.exists] at h
  obtain ⟨c₁, d₁, h₁, c₂, d₂, h₂, c₃, d₃, h₃, a, rest, h₄, filedata, h₅, hr⟩ := h
  obtain ⟨t, rfl, ht, htfit, rfl⟩ := scanField_some h₁
  obtain ⟨f, rfl, hf, hffit, rfl⟩ := scanField_some h₂
  obtain ⟨n, rfl, hn, hnfit, rfl⟩ := scanField_some h₃
  obtain ⟨s, rfl, hs, hsfit, rfl⟩ := scanField_some h₄
  rw [atoi_content] at h₅ hr
  obtain ⟨hrest, hsize⟩ := copyLoop_some (Nat.zero_le _) h₅
  cases hr
  refine ⟨t, f, n, s, rest, ⟨rfl, ⟨ht, ?_⟩, ⟨hf, ?_⟩, ⟨hn, ?_⟩, ⟨hs, ?_⟩⟩, ?_, hrest, atoi_content _, cstr_write_nul _ _⟩ <;> omega

end Reading

/-- The header starts with four fields; a colon in the name closes the last one early. -/
theorem fields_header {s tail : Bytes} (hname : filename.bytes ++ [colon] = s ++ colon :: tail) (hs : colon ∉ s)
    (rest : Bytes) :
    Fields (packetHeader totalFrag fragNo size filename.bytes ++ rest) (printD totalFrag) (printD fragNo) (printD size) s
      (tail ++ rest) := by
  have hd : ∀ v, colon ∉ printD v := fun v => not_mem_printD (by decide) (by decide)
  have h₁ := length_printD_le totalFrag
  have h₂ := length_printD_le fragNo
  have h₃ := length_printD_le size
  have hfits := filename.fits
  have hlen := congrArg List.length hname
  simp only [List.length_append, List.length_cons, List.length_nil] at hlen
  refine ⟨?_, ⟨hd _, by omega⟩, ⟨hd _, by omega⟩, ⟨hd _, by omega⟩, ⟨hs, by omega⟩⟩
  rw [packetHeader, hname]
  simp only [List.append_assoc, List.cons_append]

/-- Reading a text that starts with a header. -/
private theorem bufferToPacket_header (content : CArray 12) (p : Packet) (name : CArray nameLength) {rest : Bytes}
    (hcolon : colon ∉ filename.bytes) (hsize : size.toNat ≤ fileFragSize) (hrest : size.toNat ≤ rest.length) :
    bufferToPacket content p name (packetHeader totalFrag fragNo size filename.bytes ++ rest) =
      some (⟨totalFrag, fragNo, size, filename.bytes,
          p.filedata.write 0 (rest.take size.toNat) (by simp only [List.length_take]; omega)⟩,
        name.write 0 filename.mem (by rw [filename.length_mem]; have := filename.fits; omega)) := by
  have hfields : Fields (packetHeader totalFrag fragNo size filename.bytes ++ rest) _ _ _ _ _ :=
    fields_header rfl hcolon rest
  have hread := bufferToPacket_fields content p name hfields (by rw [atoi_printD]; exact hsize)
    (by rw [atoi_printD]; exact hrest)
  simp only [atoi_printD, cstr_of_nulFree filename.nulFree, List.nil_append] at hread
  exact hread

/-! ### The domain of the round trip -/

/-- `buffer_to_packet` has given back the packet and the name. -/
def Recovers (p : Packet) (filename : Bytes) (result : Option (Packet × CArray nameLength)) : Prop :=
  ∃ r name, result = some (r, name) ∧ r.totalFrag = p.totalFrag ∧ r.fragNo = p.fragNo ∧ r.size = p.size ∧
    r.filename = filename ∧ cstr name.bytes = filename ∧
    r.filedata.bytes.take p.size.toNat = p.filedata.bytes.take p.size.toNat

/-- No name that is read holds a colon. -/
private theorem colon_not_mem_filename {content : CArray 12} {p r : Packet} {name name' : CArray nameLength}
    {data : Bytes}
    (h : bufferToPacket content p name data = some (r, name')) : colon ∉ r.filename := by
  obtain ⟨t, f, n, s, rest, hfields, -, -, -, hr⟩ := bufferToPacket_some h
  rw [hr]
  intro hmem
  exact hfields.name_field.1 ((List.takeWhile_sublist _).subset hmem)

/-- The round trip: the bytes that `convert_to_string` makes are read back as the same packet if and only if the name
holds no colon, whatever follows them in memory.  The length returned is that of the header and the data, they fit the
array, and nothing behind them is written but the NUL of an empty fragment. -/
theorem packet_round_trip (p : Packet) (filename : CStr nameLength) (data : CArray sendingBufferSize)
    (hsize : p.size.toNat ≤ fileFragSize) :
    ∃ out count, convertToString p data filename = some (out, count) ∧
      (∀ content q name rest,
        Recovers p filename.bytes (bufferToPacket content q name (out.bytes.take count ++ rest)) ↔
          colon ∉ filename.bytes) ∧
      count = (packetHeader p.totalFrag p.fragNo p.size filename.bytes).length + p.size.toNat ∧
      count ≤ sendingBufferSize ∧
      (0 < p.size.toNat → out.bytes.drop count = data.bytes.drop count) ∧
      out.bytes.drop (count + 1) = data.bytes.drop (count + 1) := by
  obtain ⟨out, count, hconv, hcount, hbytes, hdrop⟩ := convertToString_bytes p data filename hsize
  have hlen := length_packetHeader_le p.totalFrag p.fragNo p.size filename
  have hsize' : p.size.toNat ≤ 1000 := hsize
  have hdata : (p.filedata.bytes.take p.size.toNat).length = p.size.toNat := by
    rw [List.length_take, p.filedata.size_eq]
    exact Nat.min_eq_left hsize
  refine ⟨out, count, hconv, fun content q name rest => ?_, hcount, ?_, fun hpos => hdrop _ le_rfl (by omega),
    hdrop _ (by omega) (by omega)⟩
  · constructor
    · rintro ⟨r, name', hread, -, -, -, hname, -, -⟩
      rw [← hname]
      exact colon_not_mem_filename hread
    · intro hcolon
      rw [hbytes, List.append_assoc, bufferToPacket_header content q name hcolon hsize
        (by rw [List.length_append, hdata]; omega)]
      refine ⟨_, _, rfl, rfl, rfl, rfl, rfl, ?_, ?_⟩
      · rw [CArray.bytes_write_zero, CStr.mem, List.append_assoc, List.singleton_append, cstr_append_nul filename.nulFree]
      · have htake : (p.filedata.bytes.take p.size.toNat ++ rest).take p.size.toNat = p.filedata.bytes.take p.size.toNat := by
          rw [List.take_left' hdata]
        rw [CArray.bytes_write_zero, htake, List.take_left' hdata]
  · show count ≤ 2000
    omega

/-- Three bytes of a file `a.txt`: a colon and a NUL among them. -/
theorem packet_round_trip_txt :
    ∃ out count, convertToString
        ⟨2, 1, 3, ascii "a.txt", (CArray.zero fileFragSize).write 0 [97, 58, 0] (by decide)⟩ (CArray.zero sendingBufferSize)
        ⟨ascii "a.txt", by decide, by decide⟩ = some (out, count) ∧
      Recovers ⟨2, 1, 3, ascii "a.txt", (CArray.zero fileFragSize).write 0 [97, 58, 0] (by decide)⟩ (ascii "a.txt")
        (bufferToPacket (CArray.zero 12) Packet.zero (CArray.zero nameLength) (out.bytes.take count)) := by
  obtain ⟨out, count, hconv, hread, -⟩ := packet_round_trip
    ⟨2, 1, 3, ascii "a.txt", (CArray.zero fileFragSize).write 0 [97, 58, 0] (by decide)⟩
    ⟨ascii "a.txt", by decide, by decide⟩ (CArray.zero sendingBufferSize) (by decide)
  have h := (hread (CArray.zero 12) Packet.zero (CArray.zero nameLength) []).2 (by decide)
  rw [List.append_nil] at h
  exact ⟨out, count, hconv, h⟩

end RoundTrip

end FileTransfer
