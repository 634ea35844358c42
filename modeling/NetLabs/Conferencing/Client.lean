import NetLabs.Conferencing.Server

/-!
# The client (`client/client.c`)

The flags of a client, what a message from the server does to them (`server_message_handler`), and what a typed line
does (the body of the loop of `main`): it is taken apart by `strtok`, the command is checked against the flags, and a
request or a chat message is sent.

Opening a connection is not part of the model: `/login` and `/create` end in `Reaction.connect`, and `accessRequest` is
what is sent once the connection stands.
-/

namespace Conferencing

open CText

/-- The global flags. -/
structure Client where
  name : CStr maxName
  serverConnectionStatus : Status
  verifiedAccess : Status
  sessionStatus : Status
  role : Role
  deriving DecidableEq

namespace Client

/-! ### Messages from the server -/

/-- The messages whose data are printed with `%s`. -/
def printed (type : UInt32) : Bool :=
  type ∈ [MsgType.loNak, MsgType.jnAck, MsgType.jnNak, MsgType.nsAck, MsgType.newSess, MsgType.quAck, MsgType.rgNak,
    MsgType.pmAck, MsgType.pmNak, MsgType.kiMessage, MsgType.kiAck, MsgType.kiNak, MsgType.sqAck, MsgType.sqNak]

/-- What a message does to the flags. -/
def afterMessage (c : Client) (type : UInt32) (source : CStr maxName) : Client :=
  if type = MsgType.loAck ∨ type = MsgType.rgAck then { c with name := source, verifiedAccess := .online }
  else if type = MsgType.loNak ∨ type = MsgType.rgNak then
    { c with verifiedAccess := .offline, serverConnectionStatus := .offline }
  else if type = MsgType.jnAck then { c with role := .user, sessionStatus := .online }
  else if type = MsgType.jnNak then { c with role := .user, sessionStatus := .offline }
  else if type = MsgType.nsAck then { c with role := .admin, sessionStatus := .online }
  else if type = MsgType.pmMessage then { c with role := .admin }
  else if type = MsgType.pmAck then { c with role := .user }
  else if type = MsgType.kiMessage then { c with sessionStatus := .offline }
  else c

/-- One turn of the loop of `server_message_handler`, with whether the loop goes on. -/
def handle (c : Client) (message : Message) (source : CStr maxName) : Option (Client × Bool) :=
  if message.type = MsgType.message then
    -- one's own chat messages are not printed
    if source = c.name then some (c, true)
    else message.data.text?.map fun _ => (c, true)
  else if printed message.type ∧ message.data.text? = none then none
  else some (c.afterMessage message.type source, message.type ≠ MsgType.loNak ∧ message.type ≠ MsgType.rgNak)

/-- The turn of the loop that received `chunk`. -/
def receive (c : Client) (chunk : Bytes) : Option (Client × Bool) := do
  let (message, source) ← decode (recvBuffer chunk)
  c.handle message source

end Client

/-! ### Taking a line apart -/

/-- A delimiter of `strtok(line, " \n")`. -/
def isDelimiter (b : Byte) : Bool := b = 32 || b = 10

/-- One call of `strtok` on the rest `s` of a text: the token, the memory that has been scanned, with the NUL that
ends the token, and the rest for the next call. -/
def strtok (s : Bytes) : Option (Bytes × Bytes × Bytes) :=
  let lead := s.takeWhile isDelimiter
  let s := s.dropWhile isDelimiter
  if s = [] then none
  else
    let token := s.takeWhile fun b => !isDelimiter b
    match s.dropWhile fun b => !isDelimiter b with
    | [] => some (token, lead ++ token, [])
    | _ :: rest => some (token, lead ++ token ++ [0], rest)

abbrev loginParameterSize : Nat := 5

/-- The size of a slot of `input`. -/
abbrev inputSize : Nat := 50

/-- The loop that copies the tokens into the free slots of `input`: the tokens, whether there was one too many, and
the memory of the text.  Unless `all`, it stops after the first token. -/
def readTokens (all : Bool) : Nat → Bytes → Option (List Bytes × Bool × Bytes)
  | slots, s =>
    match strtok s with
    | none => some ([], false, s)
    | some (token, scanned, rest) =>
      match slots with
      | 0 => some ([], true, scanned ++ rest)
      | slots + 1 =>
        if token.length < inputSize then
          if all then (readTokens all slots rest).map fun (tokens, more, memory) =>
            (token :: tokens, more, scanned ++ memory)
          else some ([token], false, scanned ++ rest)
        else none

/-- A token is not empty and holds no delimiter. -/
theorem strtok_token {s token scanned rest : Bytes} (h : strtok s = some (token, scanned, rest)) :
    token ≠ [] ∧ ∀ b ∈ token, isDelimiter b = false := by
  unfold strtok at h
  dsimp only at h
  split at h
  · cases h
  · rename_i hne
    have htoken : token = (s.dropWhile isDelimiter).takeWhile fun b => !isDelimiter b := by
      split at h <;> cases h <;> rfl
    rw [htoken]
    refine ⟨fun hnil => ?_, fun b hb => by simpa using List.mem_takeWhile_imp hb⟩
    -- what is left starts with a byte that is no delimiter
    have hhead := List.head_dropWhile_not isDelimiter hne
    rw [List.takeWhile_eq_nil_iff] at hnil
    have hlen := List.length_pos_iff.2 hne
    rw [List.head_eq_getElem] at hhead
    exact hnil hlen (by simp [hhead])

theorem readTokens_token {all : Bool} {slots : Nat} {s : Bytes} {tokens : List Bytes} {more : Bool} {memory : Bytes}
    (h : readTokens all slots s = some (tokens, more, memory)) :
    ∀ token ∈ tokens, token ≠ [] ∧ ∀ b ∈ token, isDelimiter b = false := by
  induction slots generalizing s tokens more memory with
  | zero =>
    unfold readTokens at h
    split at h <;> cases h <;> simp
  | succ slots ih =>
    unfold readTokens at h
    split at h
    · cases h
      simp
    · rename_i token scanned rest hword
      have htoken := strtok_token hword
      dsimp only at h
      split at h
      · split at h
        · obtain ⟨⟨tokens', more', memory'⟩, hrest, h⟩ := Option.map_eq_some_iff.1 h
          cases h
          intro t ht
          rcases List.mem_cons.1 ht with rfl | ht
          · exact htoken
          · exact ih hrest t ht
        · cases h
          intro t ht
          rw [List.mem_singleton.1 ht]
          exact htoken
      · cases h

/-- A line after the loop: the filled slots of `input`, `index`, and the memory of `line_buffer`. -/
structure TypedLine where
  tokens : List Bytes
  index : Nat
  memory : Bytes

/-- `input[i]`. -/
def TypedLine.input (t : TypedLine) (i : Nat) : Bytes := t.tokens.getD i []

def splitLine (line : Bytes) : Option TypedLine := do
  let slash := line.head? = some 47
  let (tokens, more, memory) ← readTokens slash loginParameterSize (cstr line)
  let index := if slash then tokens.length + (if more then 1 else 0) else 0
  some ⟨tokens, index, memory ++ line.drop (cstr line).length ++ [0]⟩

/-- The command codes. -/
inductive Command
  | invalid
  | login
  | logout
  | joinSession
  | leaveSession
  | createSession
  | list
  | quit
  | create
  | kick
  | promote
  | message
  | userlist
  deriving DecidableEq

/-- `check_commands`. -/
def checkCommands (command : Bytes) : Command :=
  if command.head? ≠ some 47 then .message
  else if command = ascii "/login" then .login
  else if command = ascii "/logout" then .logout
  else if command = ascii "/quit" then .quit
  else if command = ascii "/joinsession" then .joinSession
  else if command = ascii "/leavesession" then .leaveSession
  else if command = ascii "/createsession" then .createSession
  else if command = ascii "/list" then .list
  else if command = ascii "/create" then .create
  else if command = ascii "/kick" then .kick
  else if command = ascii "/promote" then .promote
  else if command = ascii "/userlist" then .userlist
  else .invalid

/-! ### Commands -/

/-- `length_validate`. -/
def lengthValidate (receivedLength expectedLength : Nat) : Bool := receivedLength < expectedLength

/-- What `login` and `user_registration` send: nothing when a parameter is too long. -/
def accessRequest (request : UInt32) (username password : Bytes) : Option (List Bytes) :=
  if lengthValidate username.length maxName = false then some []
  else if lengthValidate password.length maxPasswordLength = false then some []
  else do
    let name ← CStr.ofBytes? maxName username
    let data ← CStr.ofBytes? maxData password
    let (_, bytes) ← fillAndSendMessage request name (some data)
    some [bytes]

/-- What a typed line leads to: messages on the socket, a new connection with the parameters of `/login` or `/create`,
or the end of the program after some messages. -/
inductive Reaction
  | send (messages : List Bytes)
  | connect (request : UInt32) (parameters : List Bytes)
  | quit (messages : List Bytes)
  deriving DecidableEq

/-- The uninitialised locals of the branch that sends a chat message. -/
structure Locals where
  message : Message
  sendingBuffer : CArray maximumBufferSize

namespace Client

/-- `fill_and_send_message` with the client's name. -/
def request (c : Client) (type : UInt32) (data : Option (CStr maxData)) : Option Bytes :=
  (fillAndSendMessage type c.name data).map Prod.snd

/-- `leave_session`. -/
def leaveSession (c : Client) : Option (Client × List Bytes) :=
  if c.sessionStatus = .offline then some (c, [])
  else (c.request MsgType.leaveSess none).map fun bytes =>
    ({ c with sessionStatus := .offline, role := .user }, [bytes])

/-- `logout`. -/
def logout (c : Client) : Option (Client × List Bytes) := do
  let (c, leave) ← c.leaveSession
  let exit ← c.request MsgType.exit none
  some ({ c with verifiedAccess := .offline, serverConnectionStatus := .offline }, leave ++ [exit])

/-- A request of one text that leaves the flags as they are. -/
def ask (c : Client) (type : UInt32) (text : Bytes) : Option (Client × Reaction) := do
  let data ← CStr.ofBytes? maxData text
  let bytes ← c.request type (some data)
  some (c, .send [bytes])

/-- Nothing but a message on the terminal. -/
def nothing (c : Client) : Option (Client × Reaction) := some (c, .send [])

/-- The branch `message_command`. -/
def chat (c : Client) (locals : Locals) (bytesRead : Nat) (lineBuffer : Bytes) : Option (Client × Reaction) := do
  let message ← fillMessage locals.message MsgType.message (UInt32.ofNat bytesRead) c.name.mem lineBuffer
  let (buffer, _) ← messageToString message message.size locals.sendingBuffer
  some (c, .send [cstr buffer.bytes])

/-- The guards of `/kick` and `/promote`. -/
def askAbout (c : Client) (type : UInt32) (t : TypedLine) : Option (Client × Reaction) :=
  if c.sessionStatus = .offline then c.nothing
  else if c.role = .user then c.nothing
  else if t.index ≠ 2 then c.nothing
  else if ¬ (t.input 1).length < maxName then c.nothing
  else if c.name.bytes = t.input 1 then c.nothing
  else c.ask type (t.input 1)

/-- The guards of `/joinsession` and `/createsession`. -/
def askSession (c : Client) (type : UInt32) (t : TypedLine) : Option (Client × Reaction) :=
  if t.index ≠ 2 then c.nothing
  else if ¬ (t.input 1).length < maxSessionLength then c.nothing
  else if c.sessionStatus = .online then c.nothing
  else c.ask type (t.input 1)

/-- The guards of `/login` and `/create`. -/
def askAccess (c : Client) (type : UInt32) (t : TypedLine) : Option (Client × Reaction) :=
  if t.index ≠ loginParameterSize then c.nothing
  else if c.verifiedAccess = .online then c.nothing
  else some (c, .connect type (t.tokens.drop 1))

/-- The commands that need a connection. -/
def perform (c : Client) (locals : Locals) (bytesRead : Nat) (t : TypedLine) : Command → Option (Client × Reaction)
  | .message => if c.sessionStatus = .offline then c.nothing else c.chat locals bytesRead t.memory
  | .logout => if t.index ≠ 1 then c.nothing else c.logout.map fun (c, messages) => (c, .send messages)
  | .list => if t.index ≠ 1 then c.nothing else (c.request MsgType.query none).map fun bytes => (c, .send [bytes])
  | .userlist =>
    if t.index ≠ 2 ∨ t.input 1 = notInSession.bytes then c.nothing else c.ask MsgType.sessQuery (t.input 1)
  | .joinSession => c.askSession MsgType.join t
  | .createSession => c.askSession MsgType.newSess t
  | .leaveSession =>
    if t.index ≠ 1 then c.nothing else c.leaveSession.map fun (c, messages) => (c, .send messages)
  | .promote => c.askAbout MsgType.promote t
  | .kick => c.askAbout MsgType.kick t
  | _ => c.nothing

/-- The body of the loop of `main`, for the line that `getline` has read. -/
def enter (c : Client) (locals : Locals) (line : Bytes) : Option (Client × Reaction) := do
  if line = [] ∨ line.head? = some 10 then c.nothing
  else
    let t ← splitLine line
    match checkCommands (t.input 0) with
    | .invalid => c.nothing
    | .quit =>
      if t.index ≠ 1 then c.nothing
      else if c.serverConnectionStatus = .online then c.logout.map fun (c, messages) => (c, .quit messages)
      else some (c, .quit [])
    | .login => c.askAccess MsgType.login t
    | .create => c.askAccess MsgType.create t
    | code => if c.serverConnectionStatus = .offline then c.nothing else c.perform locals line.length t code

end Client

end Conferencing
