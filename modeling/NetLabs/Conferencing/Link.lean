import NetLabs.Conferencing.Notices

/-!
# A client and the server, joined by two channels

The system of one client that has logged in, its server, and two channels that deliver whole messages in order.  The
other connections of the server do what they like.  The lines that the client's user types become requests
(`Client.enter_cases`), and serving one of them does to the user's record what its answers say (`Served.own`).
-/

namespace Conferencing

open CText LockProg Transition

/-! ### Requests of a client -/

/-- The requests with a text, or without. -/
def asked : List UInt32 :=
  [MsgType.join, MsgType.newSess, MsgType.leaveSess, MsgType.query, MsgType.sessQuery, MsgType.kick, MsgType.promote]

/-- The messages that a client which is logged in as `name` sends, but for the one that ends the connection. -/
inductive Request (name : CStr maxName) : UInt32 → Bytes → Prop
  | ask {type : UInt32} {data : Option (CStr maxData)} (htype : type ∈ asked)
      (hsession : type = MsgType.join ∨ type = MsgType.newSess → (textOrEmpty data).bytes ≠ notInSession.bytes)
      (hother : type = MsgType.kick ∨ type = MsgType.promote → (textOrEmpty data).bytes ≠ name.bytes) :
      Request name type (wireOf type name data)
  | chat {n : UInt32} {text : CStr maxData} (hsize : n.toNat = text.bytes.length + 1 ∨ n = 0 ∧ text.bytes = []) :
      Request name MsgType.message (chatWire n name text)

/-- What the server reads. -/
structure Request.Reads (name : CStr maxName) (type : UInt32) (received : Message) : Prop where
  type_eq : received.type = type
  mem : type ∈ MsgType.message :: asked
  session : type = MsgType.join ∨ type = MsgType.newSess → cstr received.data.bytes ≠ notInSession.bytes
  other : type = MsgType.kick ∨ type = MsgType.promote → cstr received.data.bytes ≠ name.bytes

theorem Request.decode {name : CStr maxName} {type : UInt32} {bytes : Bytes} (h : Request name type bytes)
    (hcolon : colon ∉ name.bytes) :
    ∃ received, decode (recvBuffer bytes) = some (received, name) ∧ Request.Reads name type received := by
  cases h with
  | @ask type data htype hsession hother =>
    have hdata := CArray.cstr_of_text? (text_reply_data type name (textOrEmpty data))
    exact ⟨_, decode_wireOf type data hcolon, rfl, List.mem_cons_of_mem _ htype, by rw [hdata]; exact hsession,
      by rw [hdata]; exact hother⟩
  | chat hsize =>
    obtain ⟨message, hread, hchat⟩ := stringToMessage_chatWire (CArray.zero 12) hcolon hsize
    refine ⟨message, ?_, hchat.type_eq, by simp, fun h => absurd h (by decide), fun h => absurd h (by decide)⟩
    simp only [Conferencing.decode, hread, hchat.source_text, Option.bind_eq_bind, Option.bind_some]
    rfl

theorem Request.typeOf_eq {name : CStr maxName} {type : UInt32} {bytes : Bytes} (h : Request name type bytes)
    (hcolon : colon ∉ name.bytes) : typeOf bytes = some type := by
  obtain ⟨received, hdec, hreads⟩ := h.decode hcolon
  simp only [typeOf, hdec, Option.map_some, hreads.type_eq]

/-! ### What is typed -/

/-- A typed word is not the reserved session name, which has blanks. -/
private theorem input_ne_notInSession {line : Bytes} {t : TypedLine} (h : splitLine line = some t) (i : Nat) :
    t.input i ≠ notInSession.bytes := by
  obtain ⟨⟨tokens, more, memory⟩, hread, h⟩ := Option.bind_eq_some_iff.1 h
  cases h
  intro heq
  have hblank : (32 : Byte) ∈ tokens.getD i [] := by
    have : (32 : Byte) ∈ notInSession.bytes := by decide
    rwa [← heq] at this
  rw [List.getD_eq_getElem?_getD] at hblank
  cases hget : tokens[i]? with
  | none =>
    rw [hget] at hblank
    cases hblank
  | some token =>
    rw [hget] at hblank
    cases (readTokens_token hread token (List.mem_of_getElem? hget)).2 32 hblank

/-- The command of a line. -/
def commandOf (line : Bytes) : Option Command := (splitLine line).map fun t => checkCommands (t.input 0)

namespace Client

variable {c c' : Client} {r : Reaction} {locals : Locals} {line : Bytes} {t : TypedLine}

theorem request_eq (c : Client) {type : UInt32} (htype : type ≠ MsgType.message) (data : Option (CStr maxData)) :
    c.request type data = some (wireOf type c.name data) := by
  simp only [request, fillAndSendMessage_eq htype, Option.map_some]

/-- Nothing but printing, or one request. -/
def Asks (c c' : Client) (r : Reaction) : Prop :=
  c' = c ∧ (r = .send [] ∨ ∃ type bytes, Request c.name type bytes ∧ type ≠ MsgType.leaveSess ∧ r = .send [bytes])

private theorem asks_of_nothing (h : c.nothing = some (c', r)) : c.Asks c' r := by
  cases h
  exact ⟨rfl, Or.inl rfl⟩

private theorem asks_of_ask {type : UInt32} {text : Bytes} (h : c.ask type text = some (c', r)) (htype : type ∈ asked)
    (hleave : type ≠ MsgType.leaveSess)
    (hsession : type = MsgType.join ∨ type = MsgType.newSess → text ≠ notInSession.bytes)
    (hother : type = MsgType.kick ∨ type = MsgType.promote → text ≠ c.name.bytes) : c.Asks c' r := by
  have hmessage : type ≠ MsgType.message := by
    rintro rfl
    exact absurd htype (by decide)
  obtain ⟨data, hdata, h⟩ := Option.bind_eq_some_iff.1 h
  rw [c.request_eq hmessage] at h
  cases h
  have htext : (textOrEmpty (some data)).bytes = text := CStr.ofBytes?_eq_some.1 hdata
  exact ⟨rfl, Or.inr ⟨type, _, .ask htype (by rw [htext]; exact hsession) (by rw [htext]; exact hother), hleave, rfl⟩⟩

private theorem asks_of_askSession {type : UInt32} (hsplit : splitLine line = some t)
    (h : c.askSession type t = some (c', r))
    (htype : type = MsgType.join ∨ type = MsgType.newSess) : c.Asks c' r := by
  have hasks : c.ask type (t.input 1) = some (c', r) → c.Asks c' r := by
    intro h
    rcases htype with rfl | rfl
    · exact asks_of_ask h (by decide) (by decide) (fun _ => input_ne_notInSession hsplit 1) (fun h => absurd h (by decide))
    · exact asks_of_ask h (by decide) (by decide) (fun _ => input_ne_notInSession hsplit 1) (fun h => absurd h (by decide))
  unfold askSession at h
  split at h
  · exact asks_of_nothing h
  split at h
  · exact asks_of_nothing h
  split at h
  · exact asks_of_nothing h
  · exact hasks h

private theorem asks_of_askAbout {type : UInt32} (h : c.askAbout type t = some (c', r))
    (htype : type = MsgType.kick ∨ type = MsgType.promote) : c.Asks c' r := by
  unfold askAbout at h
  split at h
  · exact asks_of_nothing h
  split at h
  · exact asks_of_nothing h
  split at h
  · exact asks_of_nothing h
  split at h
  · exact asks_of_nothing h
  split at h
  · exact asks_of_nothing h
  · rename_i hname
    rcases htype with rfl | rfl
    · exact asks_of_ask h (by decide) (by decide) (fun h => absurd h (by decide)) fun _ => Ne.symm hname
    · exact asks_of_ask h (by decide) (by decide) (fun h => absurd h (by decide)) fun _ => Ne.symm hname

/-- A chat message that is sent has copied its bytes inside the line and inside the data. -/
theorem bound_of_chat {bytesRead : Nat} {lineBuffer : Bytes} {p : Client × Reaction}
    (h : c.chat locals bytesRead lineBuffer = some p) :
    (UInt32.ofNat bytesRead).toNat ≤ maxData ∧ (UInt32.ofNat bytesRead).toNat ≤ lineBuffer.length := by
  obtain ⟨message, hfill, -⟩ := Option.bind_eq_some_iff.1 h
  by_cases h0 : UInt32.ofNat bytesRead = 0
  · rw [h0]
    exact ⟨Nat.zero_le _, Nat.zero_le _⟩
  · simp only [fillMessage, h0, ↓reduceIte, ne_eq, not_true_eq_false] at hfill
    obtain ⟨copied, hcopy, -⟩ := Option.bind_eq_some_iff.1 hfill
    obtain ⟨hsrc, hfit⟩ := copyLoop_some (Nat.zero_le _) hcopy
    exact ⟨by omega, hsrc⟩

private theorem asks_of_chat {bytesRead : Nat} {lineBuffer : Bytes}
    (h : c.chat locals bytesRead lineBuffer = some (c', r)) :
    c.Asks c' r := by
  obtain ⟨hn, hlen⟩ := bound_of_chat h
  obtain ⟨message, hfill, h⟩ := Option.bind_eq_some_iff.1 h
  obtain ⟨⟨buffer, count⟩, hprint, h⟩ := Option.bind_eq_some_iff.1 h
  cases h
  obtain ⟨r', hfill', hchat⟩ := fillMessage_chat locals.message hn c.name hlen
  obtain rfl : message = r' := Option.some.inj (hfill.symm.trans hfill')
  obtain ⟨out, count', hprint', hbytes⟩ := hchat.messageToString locals.sendingBuffer (by decide)
  obtain ⟨rfl, -⟩ := Prod.mk.inj (Option.some.inj (hprint.symm.trans hprint'))
  exact ⟨rfl, Or.inr ⟨MsgType.message, _, .chat hchat.size_text, by decide, by rw [hbytes]⟩⟩

/-- The client has logged out. -/
def Out (c : Client) : Prop := c.verifiedAccess = .offline ∧ c.serverConnectionStatus = .offline

theorem out_of_logout {messages : List Bytes} (h : c.logout = some (c', messages)) : c'.Out := by
  obtain ⟨⟨c₁, leave⟩, -, h⟩ := Option.bind_eq_some_iff.1 h
  obtain ⟨exit, -, h⟩ := Option.bind_eq_some_iff.1 h
  cases h
  exact ⟨rfl, rfl⟩

/-- What a line that is typed while the client is logged in can lead to. -/
inductive Entered (c : Client) (line : Bytes) : Client → Reaction → Prop
  | out {c' : Client} {r : Reaction} (h : c'.Out) : Entered c line c' r
  | asked {c' : Client} {r : Reaction} (h : c.Asks c' r) : Entered c line c' r
  | leave (hcommand : commandOf line = some .leaveSession) (hsession : c.sessionStatus = .online) :
      Entered c line { c with sessionStatus := .offline, role := .user }
        (.send [wireOf MsgType.leaveSess c.name none])

/-- The line is `/logout` or `/quit`. -/
def LogsOut (line : Bytes) : Prop :=
  ∃ t, splitLine line = some t ∧ (checkCommands (t.input 0) = .logout ∨ checkCommands (t.input 0) = .quit) ∧ t.index = 1

theorem LogsOut.slash (h : LogsOut line) : line.head? = some 47 := by
  obtain ⟨t, hsplit, -, hindex⟩ := h
  obtain ⟨⟨tokens, more, memory⟩, -, hsplit⟩ := Option.bind_eq_some_iff.1 hsplit
  cases hsplit
  by_contra hslash
  simp only [hslash, if_false] at hindex
  cases hindex

private theorem logsOut_iff (h : splitLine line = some t) :
    LogsOut line ↔ (checkCommands (t.input 0) = .logout ∨ checkCommands (t.input 0) = .quit) ∧ t.index = 1 := by
  constructor
  · rintro ⟨t', hsplit, hcode, hindex⟩
    obtain rfl : t' = t := Option.some.inj (hsplit.symm.trans h)
    exact ⟨hcode, hindex⟩
  · exact fun ⟨hcode, hindex⟩ => ⟨t, h, hcode, hindex⟩

/-- Everything that a line can lead to. -/
inductive Enters (c : Client) (line : Bytes) : Client → Reaction → Prop
  | asks {c' : Client} {r : Reaction} (h : c.Asks c' r) (hline : c.serverConnectionStatus = .online → ¬ LogsOut line) :
      Enters c line c' r
  | connect {type : UInt32} {parameters : List Bytes} (hverified : c.verifiedAccess = .offline) (hline : ¬ LogsOut line) :
      Enters c line c (.connect type parameters)
  | quit (hserver : c.serverConnectionStatus = .offline) : Enters c line c (.quit [])
  | logout {c' : Client} {r : Reaction} {messages : List Bytes} (hserver : c.serverConnectionStatus = .online)
      (hline : LogsOut line) (h : c.logout = some (c', messages)) (hr : r = .send messages ∨ r = .quit messages) :
      Enters c line c' r
  | leave (hserver : c.serverConnectionStatus = .online) (hline : ¬ LogsOut line)
      (hcommand : commandOf line = some .leaveSession) (hsession : c.sessionStatus = .online) :
      Enters c line { c with sessionStatus := .offline, role := .user } (.send [wireOf MsgType.leaveSess c.name none])

private theorem enters_of_askAccess {type : UInt32} (hline : ¬ LogsOut line) (h : c.askAccess type t = some (c', r)) :
    Enters c line c' r := by
  unfold askAccess at h
  split at h
  · exact .asks (asks_of_nothing h) fun _ => hline
  split at h
  · exact .asks (asks_of_nothing h) fun _ => hline
  · rename_i hverified
    cases h
    exact .connect (Status.ne_online.1 hverified) hline

/-- The commands that need a connection, but for `/logout`. -/
private theorem enters_of_perform {bytesRead : Nat} {code : Command} (hserver : c.serverConnectionStatus = .online)
    (hsplit : splitLine line = some t) (hcode : checkCommands (t.input 0) = code) (hline : ¬ LogsOut line)
    (h : c.perform locals bytesRead t code = some (c', r)) : Enters c line c' r := by
  have hasks : c.Asks c' r → Enters c line c' r := fun h => .asks h fun _ => hline
  cases code with
  | message =>
    simp only [perform] at h
    split at h
    · exact hasks (asks_of_nothing h)
    · exact hasks (asks_of_chat h)
  | logout =>
    have hindex : t.index ≠ 1 := fun hindex => hline ⟨t, hsplit, Or.inl hcode, hindex⟩
    simp only [perform, hindex, ne_eq, not_false_eq_true, if_true] at h
    exact hasks (asks_of_nothing h)
  | list =>
    simp only [perform, c.request_eq (show MsgType.query ≠ MsgType.message by decide), Option.map_some] at h
    split at h
    · exact hasks (asks_of_nothing h)
    · cases h
      exact hasks ⟨rfl, Or.inr ⟨MsgType.query, _,
        .ask (by decide) (fun h => absurd h (by decide)) (fun h => absurd h (by decide)), by decide, rfl⟩⟩
  | userlist =>
    simp only [perform] at h
    split at h
    · exact hasks (asks_of_nothing h)
    · exact hasks (asks_of_ask h (by decide) (by decide) (fun h => absurd h (by decide)) fun h => absurd h (by decide))
  | joinSession =>
    simp only [perform] at h
    exact hasks (asks_of_askSession hsplit h (Or.inl rfl))
  | createSession =>
    simp only [perform] at h
    exact hasks (asks_of_askSession hsplit h (Or.inr rfl))
  | leaveSession =>
    simp only [perform] at h
    split at h
    · exact hasks (asks_of_nothing h)
    · obtain ⟨⟨c₁, messages⟩, hleave, h⟩ := Option.map_eq_some_iff.1 h
      cases h
      unfold leaveSession at hleave
      split at hleave
      · cases hleave
        exact hasks ⟨rfl, Or.inl rfl⟩
      · rename_i hsession
        rw [c.request_eq (by decide)] at hleave
        cases hleave
        have hcommand : commandOf line = some .leaveSession := by simp only [commandOf, hsplit, Option.map_some, hcode]
        exact .leave hserver hline hcommand (Status.ne_offline.1 hsession)
  | promote =>
    simp only [perform] at h
    exact hasks (asks_of_askAbout h (Or.inr rfl))
  | kick =>
    simp only [perform] at h
    exact hasks (asks_of_askAbout h (Or.inl rfl))
  | _ => exact hasks (asks_of_nothing h)

theorem enters (h : c.enter locals line = some (c', r)) : Enters c line c' r := by
  unfold enter at h
  split at h
  · rename_i hempty
    refine .asks (asks_of_nothing h) fun _ hline => ?_
    rcases hempty with rfl | hnewline
    · cases hline.slash
    · rw [hline.slash] at hnewline
      cases hnewline
  · obtain ⟨t, hsplit, h⟩ := Option.bind_eq_some_iff.1 h
    have hother : checkCommands (t.input 0) ≠ .logout → checkCommands (t.input 0) ≠ .quit → ¬ LogsOut line := by
      rw [logsOut_iff hsplit]
      exact fun hlogout hquit hline => hline.1.elim hlogout hquit
    have hperform : ∀ {code : Command}, checkCommands (t.input 0) = code → code ≠ .logout → code ≠ .quit →
        (if c.serverConnectionStatus = .offline then c.nothing else c.perform locals line.length t code) = some (c', r) →
        Enters c line c' r := by
      intro code hcode hlogout hquit h
      have hline := hother (by rwa [hcode]) (by rwa [hcode])
      split at h
      · exact .asks (asks_of_nothing h) fun _ => hline
      · rename_i hserver
        exact enters_of_perform (Status.ne_offline.1 hserver) hsplit hcode hline h
    cases hcode : checkCommands (t.input 0) with
    | invalid =>
      rw [hcode] at h
      exact .asks (asks_of_nothing h) fun _ => hother (by rw [hcode]; decide) (by rw [hcode]; decide)
    | quit =>
      simp only [hcode] at h
      split at h
      · rename_i hindex
        exact .asks (asks_of_nothing h) fun _ hline => hindex ((logsOut_iff hsplit).1 hline).2
      · rename_i hindex
        have hline : LogsOut line := ⟨t, hsplit, Or.inr hcode, not_not.1 hindex⟩
        split at h
        · rename_i hserver
          obtain ⟨⟨c₁, messages⟩, hlogout, h⟩ := Option.map_eq_some_iff.1 h
          cases h
          exact .logout hserver hline hlogout (Or.inr rfl)
        · rename_i hserver
          cases h
          exact .quit (Status.ne_online.1 hserver)
    | logout =>
      simp only [hcode] at h
      split at h
      · rename_i hserver
        refine .asks (asks_of_nothing h) fun hon => ?_
        rw [hserver] at hon
        cases hon
      · rename_i hserver
        simp only [perform] at h
        split at h
        · rename_i hindex
          exact .asks (asks_of_nothing h) fun _ hline => hindex ((logsOut_iff hsplit).1 hline).2
        · rename_i hindex
          obtain ⟨⟨c₁, messages⟩, hlogout, h⟩ := Option.map_eq_some_iff.1 h
          cases h
          have hline : LogsOut line := ⟨t, hsplit, Or.inl hcode, not_not.1 hindex⟩
          exact .logout (Status.ne_offline.1 hserver) hline hlogout (Or.inl rfl)
    | login =>
      rw [hcode] at h
      exact enters_of_askAccess (hother (by rw [hcode]; decide) (by rw [hcode]; decide)) h
    | create =>
      rw [hcode] at h
      exact enters_of_askAccess (hother (by rw [hcode]; decide) (by rw [hcode]; decide)) h
    | _ =>
      simp only [hcode] at h
      exact hperform hcode (by decide) (by decide) h

/-- What a line can lead to while the client is logged in. -/
theorem enter_cases (hverified : c.verifiedAccess = .online) (hserver : c.serverConnectionStatus = .online)
    (h : c.enter locals line = some (c', r)) : Entered c line c' r := by
  cases enters h with
  | asks h hline => exact .asked h
  | connect hoff => exact absurd (hverified.symm.trans hoff) (by decide)
  | quit hoff => exact absurd (hserver.symm.trans hoff) (by decide)
  | logout _ _ h _ => exact .out (out_of_logout h)
  | leave _ _ hcommand hsession => exact .leave hcommand hsession

/-- Without a connection a line changes no flag. -/
theorem enter_offline (hserver : c.serverConnectionStatus = .offline) (h : c.enter locals line = some (c', r)) :
    c' = c := by
  cases enters h with
  | asks h hline => exact h.1
  | connect => rfl
  | quit => rfl
  | logout hon => exact absurd (hserver.symm.trans hon) (by decide)
  | leave hon => exact absurd (hserver.symm.trans hon) (by decide)

/-- Receiving anything but a login leaves the name; the client stays logged in, or is logged out. -/
theorem receive_login {chunk : Bytes} {goesOn : Bool} {type : UInt32} (h : c.receive chunk = some (c', goesOn))
    (htype : typeOf chunk = some type) (hack : type ≠ MsgType.loAck ∧ type ≠ MsgType.rgAck) :
    c'.name = c.name ∧ (c'.Out ∨
      c'.verifiedAccess = c.verifiedAccess ∧ c'.serverConnectionStatus = c.serverConnectionStatus) := by
  obtain ⟨⟨message, source⟩, hdec, hhandle⟩ := Option.bind_eq_some_iff.1 h
  obtain rfl : message.type = type := by
    simp only [typeOf, hdec, Option.map_some, Option.some.injEq] at htype
    exact htype
  dsimp only [handle] at hhandle
  split at hhandle
  · split at hhandle
    · cases hhandle
      exact ⟨rfl, Or.inr ⟨rfl, rfl⟩⟩
    · obtain ⟨_, -, hhandle⟩ := Option.map_eq_some_iff.1 hhandle
      cases hhandle
      exact ⟨rfl, Or.inr ⟨rfl, rfl⟩⟩
  · split at hhandle
    · cases hhandle
    · cases hhandle
      unfold afterMessage
      rw [if_neg (by rintro (h | h); exacts [hack.1 h, hack.2 h])]
      split
      · exact ⟨rfl, Or.inl ⟨rfl, rfl⟩⟩
      · split_ifs <;> exact ⟨rfl, Or.inr ⟨rfl, rfl⟩⟩

end Client

/-! ### Serving a request -/

/-- What the record `u` becomes when a request of its user is served, with the answers. -/
structure Told (type : UInt32) (u u' : User) (messages : List Bytes) : Prop where
  types : ∀ bytes ∈ messages, ∃ t, typeOf bytes = some t ∧ t ≠ MsgType.loAck ∧ t ≠ MsgType.rgAck ∧
    (t = MsgType.jnAck ∨ t = MsgType.nsAck → type = MsgType.join ∨ type = MsgType.newSess)
  leave : type = MsgType.leaveSess → u'.inSession = .offline ∧ messages = []
  agrees : type ≠ MsgType.leaveSess → (type = MsgType.join → u.inSession = .offline) →
    ∀ f, Agrees f u → Agrees (settle f messages) u'

private theorem told_one {type t : UInt32} {u u' : User} {bytes : Bytes} (ht : typeOf bytes = some t)
    (hlogin : t ≠ MsgType.loAck ∧ t ≠ MsgType.rgAck)
    (hgrant : t = MsgType.jnAck ∨ t = MsgType.nsAck → type = MsgType.join ∨ type = MsgType.newSess)
    (hleave : type ≠ MsgType.leaveSess)
    (hagrees : (type = MsgType.join → u.inSession = .offline) → ∀ f, Agrees f u → Agrees (flagsAfter t f) u') :
    Told type u u' [bytes] := by
  refine ⟨fun b hb => ?_, fun h => absurd h hleave, fun _ hjoin f hf => ?_⟩
  · rw [List.mem_singleton.1 hb]
    exact ⟨t, ht, hlogin.1, hlogin.2, hgrant⟩
  · rw [settle_singleton ht]
    exact hagrees hjoin f hf

/-- An answer that says nothing about the session. -/
private theorem told_quiet {type t : UInt32} {u : User} {bytes : Bytes} (ht : typeOf bytes = some t)
    (hlogin : t ≠ MsgType.loAck ∧ t ≠ MsgType.rgAck) (hgrant : t ≠ MsgType.jnAck ∧ t ≠ MsgType.nsAck)
    (hleave : type ≠ MsgType.leaveSess) (hflags : ∀ f, flagsAfter t f = f) : Told type u u [bytes] :=
  told_one ht hlogin (fun h => h.elim (absurd · hgrant.1) (absurd · hgrant.2)) hleave fun _ f hf => by
    rw [hflags f]
    exact hf

section Own

variable {m m' : Memory} {name : CStr maxName} {fd i : Nat} {u : User} {type : UInt32} {received : Message}
  {r : Option Conn}

private theorem mine_leave (h : Mine m.users name fd i u) (hid : u.sessionId ≠ notInSession) :
    Mine (leftTable m.users i u.sessionId.bytes) name fd i u.leave := by
  have hleave : Mine (m.users.modify i User.leave) name fd i u.leave :=
    h.modify_self (fun _ => rfl) rfl rfl (nomatch ·)
  unfold leftTable
  dsimp only
  split
  · obtain ⟨u', hmine, rfl | ⟨heq, -⟩⟩ := hleave.onlyUserAdmin u.sessionId.bytes
    · exact hmine
    · exact absurd (CStr.ext heq.symm) hid
  · exact hleave

/-- Serving a request of the user. -/
theorem Served.own (hs : Served fd ⟨name, .online⟩ received name m r m') (hreads : Request.Reads name type received)
    (h : Mine m.users name fd i u) (hu : u.Consistent) (hcolon : colon ∉ name.bytes) (hempty : m.inbox fd = []) :
    r = some ⟨name, .online⟩ ∧ ∃ u', Mine m'.users name fd i u' ∧ Told type u u' (m'.inbox fd) := by
  have hinbox : ∀ bytes, (m.sent fd bytes).inbox fd = [bytes] := fun bytes => by
    rw [Memory.inbox_sent, hempty, List.nil_append]
  have hnot : ∀ {t : UInt32}, received.type = t → t ∉ MsgType.message :: asked → False := by
    rintro t ht hmem
    rw [← ht, hreads.type_eq] at hmem
    exact hmem hreads.mem
  cases hs with
  | @answered dest t source data htype hsource hdest =>
    obtain rfl : dest = fd := by
      rcases hdest with rfl | ⟨j, v, hrec, rfl⟩
      · rfl
      · obtain ⟨-, rfl⟩ := hrec.unique h.record
        exact h.socket
    obtain rfl : source = name := by
      rcases hsource with rfl | rfl <;> rfl
    refine ⟨rfl, u, h, ?_⟩
    rw [hinbox]
    rw [hreads.type_eq] at htype
    have hmem := hreads.mem
    have ht := typeOf_wireOf t data hcolon
    cases htype with
    | loNak => exact absurd hmem (by decide)
    | rgNak => exact absurd hmem (by decide)
    | jnNak =>
      refine told_one ht (by decide) (fun h => absurd h (by decide)) (by decide) fun hjoin f hf => ?_
      have hout := hjoin rfl
      exact ⟨⟨(nomatch ·), fun hin => absurd (hout.symm.trans hin) (by decide)⟩,
        fun hin => absurd (hout.symm.trans hin) (by decide)⟩
    | newSess => exact told_quiet ht (by decide) (by decide) (by decide) fun _ => rfl
    | quAck => exact told_quiet ht (by decide) (by decide) (by decide) fun _ => rfl
    | sqAck => exact told_quiet ht (by decide) (by decide) (by decide) fun _ => rfl
    | sqNak => exact told_quiet ht (by decide) (by decide) (by decide) fun _ => rfl
    | kiNak => exact told_quiet ht (by decide) (by decide) (by decide) fun _ => rfl
    | pmNak => exact told_quiet ht (by decide) (by decide) (by decide) fun _ => rfl
  | echoed htype =>
    have hall : MsgType.message :: asked ⊆ requests := by simp [asked, requests]
    exact absurd (hall hreads.mem) (hreads.type_eq ▸ htype)
  | loggedIn htype _ _ => exact (hnot htype (by decide)).elim
  | registered htype _ _ _ => exact (hnot htype (by decide)).elim
  | exited htype _ => exact (hnot htype (by decide)).elim
  | @created j v sessionId id htype hdata hrec hid hcount =>
    obtain ⟨rfl, rfl⟩ := hrec.unique h.record
    obtain rfl : type = MsgType.newSess := hreads.type_eq.symm.trans htype
    have hne : id ≠ notInSession := by
      rintro rfl
      have := hreads.session (Or.inr rfl)
      rw [CArray.cstr_of_text? hdata, ← CStr.ofBytes?_eq_some.1 hid] at this
      exact this rfl
    refine ⟨rfl, v.create id, h.modify_self (fun _ => rfl) rfl rfl fun _ => hne, ?_⟩
    rw [h.socket, Memory.inbox_sent, Memory.inbox_setUsers, hempty, List.nil_append]
    exact told_one (typeOf_wireOf _ _ hcolon) (by decide) (fun _ => Or.inr rfl) (by decide)
      fun _ f _ => ⟨⟨fun _ => rfl, fun _ => rfl⟩, fun _ => rfl⟩
  | @joined j v sessionId id htype hdata hrec hid href =>
    obtain ⟨rfl, rfl⟩ := hrec.unique h.record
    obtain rfl : type = MsgType.join := hreads.type_eq.symm.trans htype
    have hne : id ≠ notInSession := by
      rintro rfl
      have := hreads.session (Or.inl rfl)
      rw [CArray.cstr_of_text? hdata, ← CStr.ofBytes?_eq_some.1 hid] at this
      exact this rfl
    -- joining does not set the role: outside a session it is `USER`
    have hrole : v.role = .user := by
      cases hr : v.role with
      | user => rfl
      | admin => exact absurd ((hu.admin hr).symm.trans (joinRefusal_eq_none href).1) (by decide)
    refine ⟨rfl, v.join id, h.modify_self (fun _ => rfl) rfl rfl fun _ => hne, ?_⟩
    rw [h.socket, Memory.inbox_sent, Memory.inbox_setUsers, hempty, List.nil_append]
    exact told_one (typeOf_wireOf _ _ hcolon) (by decide) (fun _ => Or.inl rfl) (by decide)
      fun _ f _ => ⟨⟨fun _ => rfl, fun _ => rfl⟩, fun _ => hrole.symm⟩
  | leftOut htype hrec hin =>
    obtain ⟨rfl, rfl⟩ := hrec.unique h.record
    refine ⟨rfl, _, h, ?_⟩
    rw [hempty]
    exact ⟨by simp, fun _ => ⟨hin, rfl⟩, fun hne => absurd (hreads.type_eq.symm.trans htype) hne⟩
  | leftReserved _ hrec hin hid =>
    obtain ⟨rfl, rfl⟩ := hrec.unique h.record
    exact absurd hid (h.session hin)
  | @left j v htype hrec hin hid =>
    obtain ⟨rfl, rfl⟩ := hrec.unique h.record
    refine ⟨rfl, _, mine_leave h hid, ?_⟩
    have hnone : (Conferencing.left m j v.sessionId.bytes).inbox fd = [] := by
      rw [Conferencing.left, notified, Memory.users_setUsers, (mine_leave h hid).inbox_sentAll, Memory.inbox_setUsers,
        hempty]
      rfl
    rw [hnone]
    exact ⟨by simp, fun _ => ⟨rfl, rfl⟩, fun hne => absurd (hreads.type_eq.symm.trans htype) hne⟩
  | @relayed j v text htype _ hsize =>
    obtain rfl : type = MsgType.message := hreads.type_eq.symm.trans htype
    have hquiet : ∀ bytes ∈
        (m.sentAll (recipients m.users v.sessionId.bytes) (chatWire received.size name text)).inbox fd,
        typeOf bytes = some MsgType.message := by
      intro bytes hb
      rw [recipients, h.inbox_sentAll, hempty, List.nil_append] at hb
      split at hb
      · rw [List.mem_singleton.1 hb]
        exact typeOf_chatWire hcolon hsize
      · cases hb
    refine ⟨rfl, u, h, fun bytes hb => ⟨_, hquiet bytes hb, by decide, by decide, fun h => absurd h (by decide)⟩,
      fun h => absurd h (by decide), fun _ _ f hf => ?_⟩
    rw [settle_quiet hquiet]
    exact hf
  | kicked htype hrec ht _ =>
    obtain ⟨rfl, rfl⟩ := hrec.unique h.record
    obtain rfl : type = MsgType.kick := hreads.type_eq.symm.trans htype
    obtain ⟨hk, hsocket⟩ := h.ne_of_record ht (hreads.other (Or.inl rfl))
    refine ⟨rfl, _, h.modify_ne ht.get hk (fun _ => rfl) hsocket, ?_⟩
    rw [Conferencing.kicked, h.socket, Memory.inbox_sent, Memory.inbox_sent_ne _ _ hsocket, Memory.inbox_setUsers, hempty,
      List.nil_append]
    exact told_quiet (typeOf_wireOf _ _ hcolon) (by decide) (by decide) (by decide) fun _ => rfl
  | promoted htype hrec ht _ =>
    obtain ⟨rfl, rfl⟩ := hrec.unique h.record
    obtain rfl : type = MsgType.promote := hreads.type_eq.symm.trans htype
    obtain ⟨hk, hsocket⟩ := h.ne_of_record ht (hreads.other (Or.inr rfl))
    have hother := h.modify_ne (f := User.setRole .admin) ht.get hk (fun _ => rfl) hsocket
    refine ⟨rfl, _, hother.modify_self (f := User.setRole .user) (fun _ => rfl) rfl rfl h.session, ?_⟩
    rw [Conferencing.promoted, h.socket, Memory.inbox_sent, Memory.inbox_sent_ne _ _ hsocket, Memory.inbox_setUsers,
      hempty, List.nil_append]
    exact told_one (typeOf_wireOf _ _ hcolon) (by decide) (fun h => absurd h (by decide)) (by decide)
      fun _ f hf => ⟨hf.1, fun _ => rfl⟩

/-- The turn that receives a request of the user.  A request that waits has changed nothing. -/
theorem Turn.own {s t : ServerState} {bytes : Bytes} (hturn : Turn s (.recv fd bytes) t)
    (hslot : ∀ conn, s.conns fd = .running conn → conn = ⟨name, .online⟩) (hreq : Request name type bytes)
    (h : Mine s.world.mem.users name fd i u) (hu : u.Consistent) (hcolon : colon ∉ name.bytes)
    (hfree : type = MsgType.leaveSess → u.inSession = .online → s.world.Free) :
    (∀ conn, t.conns fd = .running conn → conn = ⟨name, .online⟩) ∧
      ∃ u', Mine t.world.mem.users name fd i u' ∧ Told type u u' (t.world.mem.inbox fd) := by
  obtain ⟨received, hdec, hreads⟩ := hreq.decode hcolon
  cases hturn with
  | @served _ _ conn received' claimed r w hconn hdec' _ hserved =>
    obtain rfl := hslot conn hconn
    obtain ⟨rfl, rfl⟩ := Prod.mk.inj (Option.some.inj (hdec.symm.trans hdec'))
    obtain ⟨rfl, u', hmine, htold⟩ := hserved.own hreads h hu hcolon rfl
    refine ⟨fun conn hconn' => ?_, u', hmine, htold⟩
    simp only [ServerState.setConn, slotOf, Function.update_self, Slot.running.injEq] at hconn'
    exact hconn'.symm
  | @recvWaits _ _ conn w hconn hrun hmem =>
    obtain rfl := hslot conn hconn
    refine ⟨fun conn hconn' => ?_, u, ?_, ?_⟩
    · simp only [ServerState.setConn, Function.update_self, reduceCtorEq] at hconn'
    · show Mine w.mem.users name fd i u
      rw [hmem]
      exact h
    · have hnone : w.mem.inbox fd = [] := by
        rw [hmem]
        rfl
      show Told type u u (w.mem.inbox fd)
      rw [hnone]
      refine ⟨by simp, fun hleave => ⟨?_, rfl⟩, fun _ _ f hf => hf⟩
      -- with both mutexes free, leaving does not wait
      cases hin : u.inSession with
      | offline => rfl
      | online =>
        have hw : s.clear.Free := hfree hleave hin
        have hrec : Record s.clear.mem.users name.bytes i u := h.record
        rw [serve_leave hdec (hreads.type_eq.trans hleave), run_serverSideSessionLeave hrec] at hrun
        simp only [hw .userList, hw .rw, hin, Bool.false_eq_true, ↓reduceIte, reduceCtorEq] at hrun
        split at hrun <;> cases hrun

end Own

/-! ### The system -/

/-- The client, the server, and the messages that are under way between them. -/
structure Link where
  client : Client
  toServer : List Bytes
  toClient : List Bytes
  server : ServerState

inductive LinkEvent
  | typed (locals : Locals) (line : Bytes)
  | serve
  | deliver
  | others (e : Event)

/-- One step of the client, of the server on behalf of the client, of a channel, or of the server on behalf of another
connection. -/
def Link.next (fd : Nat) (l : Link) : LinkEvent → Option Link
  | .typed locals line =>
    match l.client.enter locals line with
    | some (client, .send messages) => some { l with client := client, toServer := l.toServer ++ messages }
    | some (client, .quit messages) => some { l with client := client, toServer := l.toServer ++ messages }
    | _ => none
  | .serve =>
    match l.toServer with
    | [] => none
    | bytes :: rest => (l.server.next (.recv fd bytes)).map fun server =>
      { l with toServer := rest, server := server, toClient := l.toClient ++ server.world.mem.inbox fd }
  | .deliver =>
    match l.toClient with
    | [] => none
    | bytes :: rest =>
      if l.client.serverConnectionStatus = .online then
        (l.client.receive bytes).map fun (client, _) => { l with client := client, toClient := rest }
      else none
  | .others e =>
    if e.socket ≠ fd then
      (l.server.next e).map fun server =>
        { l with server := server, toClient := l.toClient ++ server.world.mem.inbox fd }
    else none

/-- The client has just logged in, with its record in no session, and nobody else acts under its name. -/
structure Link.Begins (fd : Nat) (l : Link) : Prop where
  reachable : Reachable Conferencing.server l.server
  verified : l.client.verifiedAccess = .online
  online : l.client.serverConnectionStatus = .online
  session : l.client.sessionStatus = .offline
  toServer : l.toServer = []
  toClient : l.toClient = []
  socket : fd ≠ offlineFd
  conn : l.server.conns fd = .running ⟨l.client.name, .online⟩
  record : ∃ i u, Mine l.server.world.mem.users l.client.name fd i u ∧ u.inSession = .offline
  alone : ∀ fd' conn, fd' ≠ fd → l.server.conns fd' = .running conn → conn.source ≠ l.client.name

/-- The client of the socket `fd`, its channels and its server. -/
def link (fd : Nat) : System Link LinkEvent where
  init l := l.Begins fd
  step l e l' := l.next fd e = some l'

end Conferencing
