import NetLabs.Lib.Decimal

/-!
# Messages (`message/message.c`, `message/message.h`)

A `message_t` travels as the text `<type>:<size>:<source>:data`.  `fillMessage` builds a message, `messageToString`
prints it into a caller's buffer, `stringToMessage` reads a received buffer, and `fillAndSendMessage` is the path of
every reply and request: fill, print, and send the `strlen` bytes of the buffer.

All arrays have the sizes of the source and every access is checked, so `none` is undefined behaviour: an index out
of bounds, or a text that is not closed.
-/

namespace Conferencing

open CText

/-! ### Constants -/

abbrev maxName : Nat := 17
abbrev maxPasswordLength : Nat := 20
abbrev maxSessionLength : Nat := 20
abbrev maxData : Nat := 1000
abbrev accBufferSize : Nat := 1500
abbrev maximumBufferSize : Nat := 1200

theorem maxData_eq : maxData = 1000 := rfl

theorem maxName_le : maxName ≤ maxData := by decide

theorem maxSessionLength_le : maxSessionLength ≤ maxData := by decide

/-- `':'`. -/
abbrev colon : Byte := 58

/-- `OFFLINE` and `ONLINE`. -/
inductive Status
  | offline
  | online
  deriving DecidableEq

theorem Status.ne_offline {s : Status} : s ≠ .offline ↔ s = .online := by
  cases s <;> simp

theorem Status.ne_online {s : Status} : s ≠ .online ↔ s = .offline := by
  cases s <;> simp

/-- `USER` and `ADMIN`. -/
inductive Role
  | user
  | admin
  deriving DecidableEq

namespace MsgType

abbrev login : UInt32 := 0
abbrev loAck : UInt32 := 1
abbrev loNak : UInt32 := 2
abbrev exit : UInt32 := 3
abbrev join : UInt32 := 4
abbrev jnAck : UInt32 := 5
abbrev jnNak : UInt32 := 6
abbrev leaveSess : UInt32 := 7
abbrev newSess : UInt32 := 8
abbrev nsAck : UInt32 := 9
abbrev message : UInt32 := 10
abbrev query : UInt32 := 11
abbrev quAck : UInt32 := 12
abbrev create : UInt32 := 13
abbrev rgAck : UInt32 := 14
abbrev rgNak : UInt32 := 15
abbrev kick : UInt32 := 16
abbrev kiAck : UInt32 := 17
abbrev kiNak : UInt32 := 18
abbrev kiMessage : UInt32 := 19
abbrev promote : UInt32 := 20
abbrev pmAck : UInt32 := 21
abbrev pmNak : UInt32 := 22
abbrev pmMessage : UInt32 := 23
abbrev sessQuery : UInt32 := 24
abbrev sqAck : UInt32 := 25
abbrev sqNak : UInt32 := 26

end MsgType

/-- `NOT_IN_SESSION`. -/
def notInSession : CStr maxSessionLength := ⟨ascii "Not in session", by decide, by decide⟩

/-! ### The message structure -/

/-- `message_t`. -/
@[ext] structure Message where
  type : UInt32
  size : UInt32
  source : CArray maxName
  data : CArray maxData
  deriving DecidableEq

/-- A message after `memset(&message, 0, sizeof(message))`. -/
def Message.zero : Message := ⟨0, 0, CArray.zero maxName, CArray.zero maxData⟩

/-- The NULs inside a chat text become blanks. -/
def blankNul (b : Byte) : Byte := if b = 0 then 32 else b

/-- `fill_message`.  `source` and `data` are the memory behind the two pointers. -/
def fillMessage (message : Message) (type size : UInt32) (source data : Bytes) : Option Message := do
  let data ←
    if size = 0 then some (CArray.zero maxData)
    else if type ≠ MsgType.message then message.data.strcpy data
    else do
      -- the last byte is overwritten with the closing NUL
      let data ← copyLoop blankNul size.toNat data 0 message.data
      data.store (size.toNat - 1) 0
  let source ← message.source.strcpy source
  some ⟨type, size, source, data⟩

/-- What `sprintf(buffer, "%d:%d:%s:", type, size, source)` prints. -/
def header (type size : UInt32) (source : Bytes) : Bytes :=
  printD type ++ colon :: (printD size ++ colon :: (source ++ [colon]))

/-- `message_to_string`: the buffer and the length returned.  (When the size is 0 the source also clears the data of
its own argument, which no caller reads again.) -/
def messageToString {cap : Nat} (message : Message) (messageDataSize : UInt32) (buffer : CArray cap) :
    Option (CArray cap × Nat) := do
  let source ← message.source.text?
  let buffer ← buffer.strcpy (header message.type messageDataSize source.bytes ++ [0])
  let startIndex := (cstr buffer.bytes).length
  if messageDataSize = 0 then some (buffer, startIndex)
  else do
    let buffer ← buffer.strcat message.data.bytes
    let buffer ← copyLoop id messageDataSize.toNat message.data.bytes startIndex buffer
    let buffer ← buffer.store (startIndex + messageDataSize.toNat) 0
    some (buffer, startIndex + messageDataSize.toNat)

/-- `string_to_message`, with the uninitialised scratch array `content` as an argument. -/
def stringToMessage (content : CArray 12) (message : Message) (buffer : Bytes) : Option Message := do
  let (content, buffer) ← scanField colon 0 buffer 0 content
  let type := atoi content.bytes
  let (content, buffer) ← scanField colon 0 buffer 0 content
  let size := atoi content.bytes
  let (source, buffer) ← scanField colon 0 buffer 0 message.source
  let data ← copyLoop id size.toNat buffer 0 message.data
  some ⟨type, size, source, data⟩

/-- A buffer after `memset(buffer, 0, sizeof(buffer))` and a `recv` that returned `chunk`. -/
def recvBuffer (chunk : Bytes) : Bytes := chunk ++ List.replicate (maximumBufferSize - chunk.length) 0

/-- The message and the bytes of one `fill_and_send_message`; `data` is the text behind the pointer, if not `NULL`. -/
def fillAndSendMessage (type : UInt32) (source : CStr maxName) (data : Option (CStr maxData)) :
    Option (Message × Bytes) := do
  let size := match data with
    | none => 0
    | some data => UInt32.ofNat data.bytes.length
  let replyMessage ← fillMessage .zero type size source.mem ((data.map CStr.mem).getD [])
  let (buffer, _) ← messageToString replyMessage replyMessage.size (CArray.zero maximumBufferSize)
  some (replyMessage, cstr buffer.bytes)

end Conferencing
