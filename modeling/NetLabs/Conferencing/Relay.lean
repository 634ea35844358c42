import NetLabs.Conferencing.Client
import NetLabs.Conferencing.Peers

/-!
# Chat messages

A typed line goes to exactly the members of the session, unchanged, as long as each of them is still on the socket that
its record holds (`chat_relay`).  On its way `strtok` plants a NUL in it, `fill_message` turns the NUL back into a blank
and overwrites the newline, the size counts one byte more than is sent, and the zeroed buffer of the receiver supplies
that byte; then all but the typing happens once more.
-/

namespace Conferencing

open CText LockProg Transition

/-! ### The typed line -/

/-- The first word of a line. -/
def firstWord (line : Bytes) : Bytes := (line.dropWhile isDelimiter).takeWhile fun b => !isDelimiter b

/-- A line that is sent as a chat message: its text, without the newline. -/
structure ChatLine (text : Bytes) : Prop where
  nonempty : text ≠ []
  newline : (10 : Byte) ∉ text
  word_fits : (firstWord (text ++ [10])).length < inputSize
  no_command : (firstWord (text ++ [10])).head? ≠ some 47

private theorem map_blankNul {l : Bytes} (h0 : (0 : Byte) ∉ l) : l.map blankNul = l := by
  conv_rhs => rw [← List.map_id l]
  refine List.map_congr_left fun b hb => ?_
  have : b ≠ 0 := fun h => h0 (h ▸ hb)
  simp [blankNul, this]

/-- `fill_message` undoes what `strtok` does to the text of the line. -/
private theorem strtok_line {text token scanned rest : Bytes} (h0 : (0 : Byte) ∉ text) (hnl : (10 : Byte) ∉ text)
    (h : strtok (text ++ [10]) = some (token, scanned, rest)) :
    token = firstWord (text ++ [10]) ∧ (scanned ++ rest).length = text.length + 1 ∧
      ((scanned ++ rest).take text.length).map blankNul = text := by
  unfold strtok at h
  dsimp only at h
  have hsplit := List.takeWhile_append_dropWhile (p := isDelimiter) (l := text ++ [10])
  generalize hlead : (text ++ [10]).takeWhile isDelimiter = lead at h hsplit
  have hword : firstWord (text ++ [10]) =
      ((text ++ [10]).dropWhile isDelimiter).takeWhile fun b => !isDelimiter b := rfl
  generalize hs : (text ++ [10]).dropWhile isDelimiter = s at h hsplit hword
  split at h
  · cases h
  · rename_i hne
    have hsplit' := List.takeWhile_append_dropWhile (p := fun b => !isDelimiter b) (l := s)
    rw [← hword] at h hsplit'
    generalize firstWord (text ++ [10]) = word at h hsplit' ⊢
    cases htail : s.dropWhile fun b => !isDelimiter b with
    | nil =>
      -- the newline is a delimiter, so the scan does not reach the end
      have hmem : (10 : Byte) ∈ s := by
        obtain ⟨b, s', rfl⟩ := List.exists_cons_of_ne_nil hne
        have hlast := congrArg List.getLast? hsplit
        rw [List.getLast?_append_of_ne_nil _ (by simp), List.getLast?_append_of_ne_nil _ (by simp)] at hlast
        exact List.mem_of_getLast? hlast
      have hall := List.dropWhile_eq_nil_iff.1 htail 10 hmem
      simp [isDelimiter] at hall
    | cons d tail =>
      rw [htail] at h hsplit'
      simp only [Option.some.injEq, Prod.mk.injEq] at h
      obtain ⟨rfl, rfl, rfl⟩ := h
      have hd : isDelimiter d = true := by
        have := List.head?_dropWhile_not (fun b => !isDelimiter b) s
        rw [htail] at this
        simpa using this
      refine ⟨rfl, ?_, ?_⟩
      · have := congrArg List.length hsplit
        rw [← hsplit'] at this
        simp only [List.length_append, List.length_cons, List.length_nil] at this ⊢
        omega
      · rw [← hsplit', ← List.append_assoc] at hsplit
        rcases List.eq_nil_or_concat tail with rfl | ⟨tail, b, rfl⟩
        · -- the word ends at the newline
          obtain ⟨htext, -⟩ := List.append_inj' hsplit rfl
          simp only [List.append_nil, List.append_assoc]
          rw [← List.append_assoc, htext, List.take_left, map_blankNul h0]
        · rw [List.concat_eq_append, ← List.cons_append, ← List.append_assoc] at hsplit
          obtain ⟨htext, -⟩ := List.append_inj' hsplit rfl
          have hblank : d = 32 := by
            have hne : d ≠ 10 := by
              rintro rfl
              exact hnl (by rw [← htext]; simp)
            simpa [isDelimiter, hne] using hd
          subst hblank
          have hfree : (0 : Byte) ∉ lead ++ word ∧ (0 : Byte) ∉ tail := by
            rw [← htext] at h0
            simp only [List.mem_append, List.mem_cons, not_or] at h0 ⊢
            exact ⟨h0.1, h0.2.2⟩
          have hshape : lead ++ word ++ [0] ++ (tail.concat b) = (lead ++ word ++ 0 :: tail) ++ [b] := by simp
          have hlen : text.length = (lead ++ word ++ 0 :: tail).length := by rw [← htext]; simp
          rw [hshape, hlen, List.take_left, List.map_append, map_blankNul hfree.1, List.map_cons, map_blankNul hfree.2,
            ← htext]
          rfl

/-- The branch `message_command` of a line, for any contents of its uninitialised locals. -/
private theorem enter_chat {c : Client} (hserver : c.serverConnectionStatus = .online)
    (hsession : c.sessionStatus = .online)
    (locals : Locals) {text : CStr maxData} (hline : ChatLine text.bytes) :
    c.enter locals (text.bytes ++ [10]) =
      some (c, .send [chatWire (UInt32.ofNat (text.bytes.length + 1)) c.name text]) := by
  have hfits : text.bytes.length < 1000 := text.fits
  have h0 : (0 : Byte) ∉ text.bytes ++ [10] := by simpa using text.nulFree
  have hcstr : cstr (text.bytes ++ [10]) = text.bytes ++ [10] := cstr_of_nulFree h0
  obtain ⟨b, rest, htext⟩ := List.exists_cons_of_ne_nil hline.nonempty
  have hhead : (text.bytes ++ [10]).head? = some b := by rw [htext]; rfl
  have hb : b ≠ 10 := by
    rintro rfl
    exact hline.newline (by rw [htext]; simp)
  -- a line that starts with a slash starts with a word that does
  have hslash : ¬ (text.bytes ++ [10]).head? = some 47 := by
    rw [hhead, Option.some.injEq]
    rintro rfl
    refine hline.no_command ?_
    rw [htext]
    rfl
  obtain ⟨t, hsplit, hinput, hlen, hmemory⟩ : ∃ t, splitLine (text.bytes ++ [10]) = some t ∧
      checkCommands (t.input 0) = .message ∧ t.memory.length = text.bytes.length + 2 ∧
      (t.memory.take text.bytes.length).map blankNul = text.bytes := by
    simp only [splitLine, hcstr, hslash, decide_false, readTokens]
    cases hword : strtok (text.bytes ++ [10]) with
    | none =>
      refine ⟨_, rfl, rfl, by simp, ?_⟩
      simp only [List.drop_length, List.append_nil, List.append_assoc, List.take_left]
      exact map_blankNul text.nulFree
    | some p =>
      obtain ⟨token, scanned, rest⟩ := p
      obtain ⟨rfl, hlen, hmemory⟩ := strtok_line text.nulFree hline.newline hword
      simp only [hline.word_fits, ↓reduceIte, Bool.false_eq_true, Option.bind_eq_bind, Option.bind_some]
      refine ⟨_, rfl, ?_, ?_, ?_⟩
      · simp [TypedLine.input, checkCommands, hline.no_command]
      · rw [List.drop_length, List.append_nil, List.length_append, hlen]
        rfl
      · rw [List.drop_length, List.append_nil, List.take_append_of_le_length (by omega)]
        exact hmemory
  have hn : (UInt32.ofNat (text.bytes.length + 1)).toNat = text.bytes.length + 1 := by
    rw [UInt32.toNat_ofNat']
    omega
  have hmax : (UInt32.ofNat (text.bytes.length + 1)).toNat ≤ maxData := by
    rw [hn]
    exact hfits
  obtain ⟨r, hfill, hchat⟩ := fillMessage_chat locals.message hmax c.name
    (show (UInt32.ofNat (text.bytes.length + 1)).toNat ≤ t.memory.length by omega)
  obtain ⟨out, count, hprint, hbytes⟩ := hchat.messageToString locals.sendingBuffer (by decide)
  have hchatText : chatText (UInt32.ofNat (text.bytes.length + 1)) t.memory hmax = text := by
    ext1
    simp only [chatText, hn, Nat.add_sub_cancel]
    exact hmemory
  rw [hchatText] at hbytes
  have hlength : (text.bytes ++ [10]).length = text.bytes.length + 1 := by simp
  simp only [Client.enter, hhead, Option.some.injEq, hb, or_false, List.append_eq_nil_iff, List.cons_ne_nil, and_false,
    ↓reduceIte, hsplit, Option.bind_eq_bind, Option.bind_some, hinput, hserver, reduceCtorEq, Client.perform, hsession,
    Client.chat, hlength, hfill, hprint, hbytes]

/-! ### The relay -/

/-- One message arrives on a socket, with this source and this text. -/
def HearsText (m : Memory) (fd : Nat) (source : CStr maxName) (text : CStr maxData) : Prop :=
  ∃ bytes, m.inbox fd = [bytes] ∧ ∃ message, decode (recvBuffer bytes) = some (message, source) ∧
    message.type = MsgType.message ∧ message.data.text? = some text

/-- Each user whose record is online and in the session hears the text once, on one of the connections that are logged
in as this user, and nothing arrives on the other connections. -/
structure Relayed (users : List User) (peers : Peers) (sessionId : Bytes) (source : CStr maxName) (text : CStr maxData)
    (m : Memory) : Prop where
  members : ∀ u ∈ recipients users sessionId, ∃ fd, peers fd = some ⟨u.username, .online⟩ ∧ HearsText m fd source text ∧
    ∀ fd', peers fd' = some ⟨u.username, .online⟩ → fd' ≠ fd → m.inbox fd' = []
  others : ∀ fd, ∀ conn ∈ peers fd, (∀ u ∈ recipients users sessionId, conn ≠ ⟨u.username, .online⟩) → m.inbox fd = []

/-- The sockets of the online members of a session are connections on which they are logged in. -/
def AtHome (users : List User) (peers : Peers) (sessionId : Bytes) : Prop :=
  ∀ u ∈ recipients users sessionId, peers u.socketFd = some ⟨u.username, .online⟩

section Sockets

variable {users : List User} {peers : Peers} {sessionId bytes : Bytes} {source : CStr maxName} {text : CStr maxData}
  {m : Memory} {fd : Nat}

theorem inbox_recipients (hempty : m.outbox = []) : (m.sentAll (recipients users sessionId) bytes).inbox fd =
    ((recipients users sessionId).filter fun u => u.socketFd = fd).map fun _ => bytes := by
  simp only [Memory.inbox, Memory.sentAll, hempty, List.nil_append, List.filter_map, List.map_map]
  rfl

theorem mem_of_mem_recipients {u : User} (hu : u ∈ recipients users sessionId) : u ∈ users := (List.mem_filter.1 hu).1

/-- What is sent to the members at home reaches each of them, and nobody else. -/
theorem AtHome.relayed (h : AtHome users peers sessionId) (hnames : (users.map User.name).Nodup) (hempty : m.outbox = [])
    (hbytes : ∃ message, decode (recvBuffer bytes) = some (message, source) ∧ message.type = MsgType.message ∧
      message.data.text? = some text) :
    Relayed users peers sessionId source text (m.sentAll (recipients users sessionId) bytes) := by
  -- who is at home on a socket is known by its connection
  have hsame : ∀ u ∈ recipients users sessionId, ∀ v ∈ recipients users sessionId,
      peers v.socketFd = some ⟨u.username, .online⟩ → v = u := by
    intro u hu v hv hpeer
    have hconn := Option.some.inj ((h v hv).symm.trans hpeer)
    exact eq_of_username hnames (mem_of_mem_recipients hv) (mem_of_mem_recipients hu) (congrArg Conn.source hconn)
  have hnodup : (recipients users sessionId).Nodup := (List.Nodup.of_map _ hnames).filter _
  constructor
  · intro u hu
    refine ⟨u.socketFd, h u hu, ⟨bytes, ?_, hbytes⟩, fun fd hfd hne => ?_⟩
    · obtain ⟨i, hi⟩ := List.mem_iff_getElem?.1 hu
      have honly : (recipients users sessionId).filter (fun v => v.socketFd = u.socketFd) = [u] := by
        refine Table.filter_eq_singleton hi (by simp) fun j v hj hv => ?_
        obtain rfl : v = u := hsame u hu v (List.mem_of_getElem? hj) (by rw [of_decide_eq_true hv, h u hu])
        exact (List.getElem?_inj (List.getElem?_eq_some_iff.1 hj).1 hnodup).1 (hj.trans hi.symm)
      rw [inbox_recipients hempty, honly]
      rfl
    · rw [inbox_recipients hempty, List.map_eq_nil_iff, List.filter_eq_nil_iff]
      intro v hv hsocket
      have hsocket : v.socketFd = fd := of_decide_eq_true hsocket
      exact hne (hsocket ▸ congrArg User.socketFd (hsame u hu v hv (hsocket ▸ hfd)))
  · intro fd conn hconn hother
    rw [inbox_recipients hempty, List.map_eq_nil_iff, List.filter_eq_nil_iff]
    intro v hv hsocket
    have hsocket : v.socketFd = fd := of_decide_eq_true hsocket
    exact hother v hv (Option.some.inj (hconn.symm.trans (hsocket ▸ h v hv)))

/-- Who hears something is at home: otherwise the message came to the socket of somebody who has logged in earlier, and
is not at home either. -/
private theorem Relayed.atHome {rank : Bytes → Nat} (hnames : (users.map User.name).Nodup)
    (hranked : Ranked users peers rank)
    (hempty : m.outbox = []) (h : Relayed users peers sessionId source text
      (m.sentAll (recipients users sessionId) bytes)) : AtHome users peers sessionId := by
  have hearlier : ∀ n, ∀ u ∈ recipients users sessionId, rank u.name = n →
      peers u.socketFd = some ⟨u.username, .online⟩ := by
    intro n
    induction n using Nat.strong_induction_on with
    | _ n ih =>
      intro u hu hrank
      obtain ⟨fd, hpeer, ⟨heard, hinbox, -⟩, -⟩ := h.members u hu
      rw [inbox_recipients hempty] at hinbox
      obtain ⟨v, hv, -⟩ : ∃ v ∈ (recipients users sessionId).filter (fun v => v.socketFd = fd), bytes = heard :=
        List.mem_map.1 (hinbox ▸ List.mem_singleton_self heard)
      obtain ⟨hv, hsocket⟩ := List.mem_filter.1 hv
      have hsocket : v.socketFd = fd := of_decide_eq_true hsocket
      rw [← hsocket] at hpeer
      have hsame : v.username = u.username → peers u.socketFd = some ⟨u.username, .online⟩ := by
        intro hname
        rw [← eq_of_username hnames (mem_of_mem_recipients hv) (mem_of_mem_recipients hu) hname]
        rwa [hname]
      rcases hranked v (mem_of_mem_recipients hv) _ hpeer rfl with hname | hlt
      · exact hsame (CStr.ext hname.symm)
      · have hhome := ih _ (hrank ▸ hlt) v hv rfl
        exact hsame (congrArg Conn.source (Option.some.inj (hhome.symm.trans hpeer)))
  exact fun u hu => hearlier _ u hu rfl

end Sockets

theorem decode_chatWire {n : UInt32} {source : CStr maxName} {text : CStr maxData} (hcolon : colon ∉ source.bytes)
    (hsize : n.toNat = text.bytes.length + 1 ∨ n = 0 ∧ text.bytes = []) :
    ∃ message, decode (recvBuffer (chatWire n source text)) = some (message, source) ∧ IsChat message n source text := by
  obtain ⟨message, hread, hchat⟩ := stringToMessage_chatWire (CArray.zero 12) hcolon hsize
  refine ⟨message, ?_, hchat⟩
  simp only [decode, hread, Option.bind_eq_bind, Option.bind_some, hchat.source_text]
  rfl

private theorem length_chatWire {n : UInt32} (source : CStr maxName) (text : CStr maxData) (hn : n.toNat ≤ maxData) :
    0 < (chatWire n source text).length ∧ (chatWire n source text).length ≤ maximumBufferSize := by
  have hfits : text.bytes.length < 1000 := text.fits
  have hhead := length_header_le MsgType.message source hn
  have hpos : 0 < (header MsgType.message n source.bytes).length := by
    simp only [header, List.length_append, List.length_cons]
    omega
  have hbound : maximumBufferSize = 1200 := rfl
  simp only [chatWire, List.length_append]
  omega

/-- The relaying of one chat message: refilled and printed again, it is the text that arrived. -/
private theorem serve_chatWire (socketFd : Nat) (conn : Conn) {w : World Mutex Memory} {source : CStr maxName}
    (text : CStr maxData) {i : Nat} {own : User} (hcolon : colon ∉ source.bytes)
    (hrec : Record w.mem.users source.bytes i own) :
    serve socketFd conn (chatWire (UInt32.ofNat (text.bytes.length + 1)) source text) w =
      if w.held .userList then .blocked w
      else .ret (some conn) (w.setMem (w.mem.sentAll (recipients w.mem.users own.sessionId.bytes)
        (chatWire (UInt32.ofNat (text.bytes.length + 1)) source text))) := by
  have hfits : text.bytes.length < 1000 := text.fits
  have hn : (UInt32.ofNat (text.bytes.length + 1)).toNat = text.bytes.length + 1 := by
    rw [UInt32.toNat_ofNat']
    omega
  obtain ⟨message, hdec, hchat⟩ := decode_chatWire hcolon (Or.inl hn)
  have hmax : message.size.toNat ≤ maxData := (decode_eq_some hdec).2.2
  have htext : chatText message.size message.data.bytes hmax = text := by
    obtain ⟨rest, hrest⟩ := CArray.bytes_of_text? hchat.data_text
    ext1
    simp only [chatText, hchat.size_eq, hn, Nat.add_sub_cancel, hrest, List.take_left]
    exact map_blankNul text.nulFree
  rw [serve_message hdec hchat.type_eq hmax hrec, htext, hchat.size_eq]

/-- The event that receives a chat message of a member of the session. -/
private theorem relayed_iff {s : ServerState} {peers : Peers} (hr : Reachable peopled (s, peers)) {socketFd : Nat}
    {conn : Conn}
    {source : CStr maxName} {text : CStr maxData} {i : Nat} {own : User} (hconn : s.conns socketFd = .running conn)
    (hcolon : colon ∉ source.bytes) (hrec : Record s.world.mem.users source.bytes i own) (hstatus : own.status = .online)
    (hin : own.inSession = .online) :
    (∃ t, s.next (.recv socketFd (chatWire (UInt32.ofNat (text.bytes.length + 1)) source text)) = some t ∧
      Relayed s.world.mem.users peers own.sessionId.bytes source text t.world.mem) ↔
      s.world.held .userList = false ∧ AtHome s.world.mem.users peers own.sessionId.bytes := by
  have hfits : text.bytes.length < 1000 := text.fits
  have hn : (UInt32.ofNat (text.bytes.length + 1)).toNat = text.bytes.length + 1 := by
    rw [UInt32.toNat_ofNat']
    omega
  have hlen := length_chatWire (n := UInt32.ofNat (text.bytes.length + 1)) source text (by rw [hn]; exact hfits)
  have hserve := serve_chatWire (w := s.clear) socketFd conn text hcolon hrec
  have hheld : s.clear.held .userList = s.world.held .userList := rfl
  have hnames := names_of_reachable hr.of_recording
  obtain ⟨rank, -, -, hranked⟩ := (peered_of_reachable hr).ranked
  simp only [ServerState.next, hconn, hlen, and_self, ↓reduceIte, hserve, hheld]
  cases s.world.held .userList with
  | true =>
    simp only [↓reduceIte, ServerState.after, Option.some.injEq, exists_eq_left', Bool.true_eq_false, false_and, iff_false]
    intro h
    -- the sender is one of the recipients, and nothing was sent
    have hmem : own ∈ recipients s.world.mem.users own.sessionId.bytes := by
      simp [recipients, hrec.mem, hstatus, hin]
    obtain ⟨fd, -, ⟨bytes, hinbox, -⟩, -⟩ := h.members own hmem
    cases hinbox
  | false =>
    simp only [Bool.false_eq_true, ↓reduceIte, ServerState.after, Option.some.injEq, exists_eq_left', true_and]
    obtain ⟨message, hdec, hchat⟩ := decode_chatWire hcolon (Or.inl hn)
    exact ⟨fun h => h.atHome hnames hranked (m := s.clear.mem) rfl,
      fun h => h.relayed hnames (m := s.clear.mem) rfl ⟨message, hdec, hchat.type_eq, hchat.data_text⟩⟩

/-- A line typed by a user in a session is relayed, unchanged, to exactly the online members of the session, if and only
if `user_list_mutex` is free when the server receives it and each of these members is logged in on the connection whose
socket its record holds. -/
theorem chat_relay {s : ServerState} {peers : Peers} (hr : Reachable peopled (s, peers)) {socketFd : Nat} {c : Client}
    {i : Nat} {own : User} (hconn : s.conns socketFd = .running ⟨c.name, .online⟩) (hcolon : colon ∉ c.name.bytes)
    (hrec : Record s.world.mem.users c.name.bytes i own) (hstatus : own.status = .online)
    (hin : own.inSession = .online) (hserver : c.serverConnectionStatus = .online)
    (hsession : c.sessionStatus = .online) (locals : Locals) (text : CStr maxData) (hline : ChatLine text.bytes) :
    ∃ bytes, c.enter locals (text.bytes ++ [10]) = some (c, .send [bytes]) ∧
      ((∃ t, s.next (.recv socketFd bytes) = some t ∧
        Relayed s.world.mem.users peers own.sessionId.bytes c.name text t.world.mem) ↔
        s.world.held .userList = false ∧ AtHome s.world.mem.users peers own.sessionId.bytes) :=
  ⟨_, enter_chat hserver hsession locals hline, relayed_iff hr hconn hcolon hrec hstatus hin⟩

/-- A client that is logged in, as the administrator of its session. -/
def adminClient (name : CStr maxName) : Client := ⟨name, .online, .online, .online, .admin⟩

/-- `bob` and `ann` are in a session, and `bob` types a line. -/
theorem chat_relay_hello : ∃ s peers, Reachable peopled (s, peers) ∧ afterEvents bobAndAnn = some s ∧
    (recipients s.world.mem.users (ascii "s")).map User.socketFd = [3, 4] ∧
    ∃ bytes t, (adminClient ⟨ascii "bob", by decide, by decide⟩).enter ⟨.zero, CArray.zero _⟩
        (ascii "hello all" ++ [10]) = some (adminClient ⟨ascii "bob", by decide, by decide⟩, .send [bytes]) ∧
      s.next (.recv 3 bytes) = some t ∧ Relayed s.world.mem.users peers (ascii "s")
        ⟨ascii "bob", by decide, by decide⟩ ⟨ascii "hello all", by decide, by decide⟩ t.world.mem := by
  let bob : CStr maxName := ⟨ascii "bob", by decide, by decide⟩
  obtain ⟨s, hs⟩ : ∃ s, afterEvents bobAndAnn = some s := Option.isSome_iff_exists.1 (by decide)
  obtain ⟨peers, hr⟩ := (reachable_afterEvents hs).recorded (fun _ => none) logPeers
  have hconn : s.conns 3 = .running ⟨bob, .online⟩ := of_afterEvents (f := fun s => s.conns 3) hs (by decide)
  have hfound : databaseSearchUser s.world.mem.users bob.bytes = some 0 :=
    of_afterEvents (f := fun s => databaseSearchUser s.world.mem.users bob.bytes) hs (by decide)
  obtain ⟨own, hrec⟩ := Table.exists_at hfound
  have hown : (s.world.mem.users[0]?).map (fun u => (u.status, u.inSession, u.sessionId.bytes)) =
      some (.online, .online, ascii "s") :=
    of_afterEvents (f := fun s => (s.world.mem.users[0]?).map fun u => (u.status, u.inSession, u.sessionId.bytes)) hs
      (by decide)
  rw [hrec.get, Option.map_some, Option.some.injEq, Prod.mk.injEq, Prod.mk.injEq] at hown
  obtain ⟨hstatus, hin, hid⟩ := hown
  have hsockets : (recipients s.world.mem.users (ascii "s")).map User.socketFd = [3, 4] :=
    of_afterEvents (f := fun s => (recipients s.world.mem.users (ascii "s")).map User.socketFd) hs (by decide)
  have hfree : s.world.held .userList = false := of_afterEvents (f := fun s => s.world.held .userList) hs (by decide)
  have hrunning : decide (∀ u ∈ recipients s.world.mem.users (ascii "s"),
      s.conns u.socketFd = .running ⟨u.username, .online⟩) = true :=
    of_afterEvents (f := fun s => decide (∀ u ∈ recipients s.world.mem.users (ascii "s"),
      s.conns u.socketFd = .running ⟨u.username, .online⟩)) hs (by decide)
  have hhome : AtHome s.world.mem.users peers own.sessionId.bytes := by
    intro u hu
    rw [hid] at hu
    exact (peered_of_reachable hr).running _ _ (of_decide_eq_true hrunning u hu)
  obtain ⟨bytes, henter, hiff⟩ := chat_relay (c := adminClient bob) hr hconn (by decide) hrec hstatus hin rfl rfl
    ⟨.zero, CArray.zero _⟩ ⟨ascii "hello all", by decide, by decide⟩ ⟨by decide, by decide, by decide, by decide⟩
  obtain ⟨t, hnext, hrelayed⟩ := hiff.2 ⟨hfree, hhome⟩
  rw [hid] at hrelayed
  exact ⟨s, peers, hr, hs, hsockets, bytes, t, henter, hnext, hrelayed⟩

/-- `ann` creates a session, and `bob` registers on her connection and leaves.  The next connection gets its socket:
`eve`, who is in no session, hears what `cat` types in the session of `ann`. -/
theorem chat_relay_fails : ¬ ∀ s peers, Reachable peopled (s, peers) → ∀ socketFd, ∀ c : Client,
    s.conns socketFd = .running ⟨c.name, .online⟩ → colon ∉ c.name.bytes →
    ∀ i own, Record s.world.mem.users c.name.bytes i own → own.status = .online → own.inSession = .online →
    c.serverConnectionStatus = .online → c.sessionStatus = .online →
    ∀ locals, ∀ text : CStr maxData, ChatLine text.bytes →
    ∃ bytes t, c.enter locals (text.bytes ++ [10]) = some (c, .send [bytes]) ∧ s.next (.recv socketFd bytes) = some t ∧
      Relayed s.world.mem.users peers own.sessionId.bytes c.name text t.world.mem := by
  intro h
  let cat : CStr maxName := ⟨ascii "cat", by decide, by decide⟩
  let hi : CStr maxData := ⟨ascii "hi", by decide, by decide⟩
  obtain ⟨s, hs⟩ : ∃ s, afterEvents [.accept 3 serverName, .recv 3 (ascii "13:1:ann:x"), .recv 3 (ascii "8:1:ann:s"),
    .recv 3 (ascii "13:1:bob:x"), .recv 3 (ascii "3:0:bob:"), .accept 3 serverName, .recv 3 (ascii "13:1:eve:x"),
    .accept 4 serverName, .recv 4 (ascii "13:1:cat:x"), .recv 4 (ascii "4:1:cat:s")] = some s :=
    Option.isSome_iff_exists.1 (by decide)
  obtain ⟨peers, hr⟩ := (reachable_afterEvents hs).recorded (fun _ => none) logPeers
  have hconn : s.conns 4 = .running ⟨cat, .online⟩ := of_afterEvents (f := fun s => s.conns 4) hs (by decide)
  have heve : s.conns 3 = .running ⟨⟨ascii "eve", by decide, by decide⟩, .online⟩ :=
    of_afterEvents (f := fun s => s.conns 3) hs (by decide)
  have hfound : databaseSearchUser s.world.mem.users cat.bytes = some 3 :=
    of_afterEvents (f := fun s => databaseSearchUser s.world.mem.users cat.bytes) hs (by decide)
  obtain ⟨own, hrec⟩ := Table.exists_at hfound
  have hown : (s.world.mem.users[3]?).map (fun u => (u.status, u.inSession, u.sessionId.bytes)) =
      some (.online, .online, ascii "s") :=
    of_afterEvents (f := fun s => (s.world.mem.users[3]?).map fun u => (u.status, u.inSession, u.sessionId.bytes)) hs
      (by decide)
  rw [hrec.get, Option.map_some, Option.some.injEq, Prod.mk.injEq, Prod.mk.injEq] at hown
  obtain ⟨hstatus, hin, hid⟩ := hown
  have hmembers : (recipients s.world.mem.users (ascii "s")).map (fun u => (u.username.bytes, u.socketFd)) =
      [(ascii "ann", 3), (ascii "cat", 4)] :=
    of_afterEvents (f := fun s => (recipients s.world.mem.users (ascii "s")).map fun u => (u.username.bytes, u.socketFd)) hs
      (by decide)
  have hline : ChatLine hi.bytes := ⟨by decide, by decide, by decide, by decide⟩
  obtain ⟨bytes, t, henter, hnext, hrelayed⟩ := h s peers hr 4 (adminClient cat) hconn (by decide) 3 own hrec hstatus hin
    rfl rfl ⟨.zero, CArray.zero _⟩ hi hline
  rw [enter_chat rfl rfl _ hline] at henter
  simp only [Option.some.injEq, Prod.mk.injEq, Reaction.send.injEq, List.cons.injEq, true_and, and_true] at henter
  have hhome := ((relayed_iff hr hconn (by decide) hrec hstatus hin).1 ⟨t, henter ▸ hnext, hrelayed⟩).2
  rw [hid] at hhome
  -- the socket of `ann` is that of `eve`
  obtain ⟨ann, hann, hfields⟩ := List.mem_map.1 (hmembers ▸ List.mem_cons_self : (ascii "ann", 3) ∈
    (recipients s.world.mem.users (ascii "s")).map fun u => (u.username.bytes, u.socketFd))
  obtain ⟨hname, hsocket⟩ := Prod.mk.inj hfields
  have hpeer := hhome ann hann
  have hother : peers 3 = some ⟨⟨ascii "eve", by decide, by decide⟩, .online⟩ := (peered_of_reachable hr).running _ _ heve
  rw [hsocket, hother] at hpeer
  have hsame := congrArg (fun c : Conn => c.source.bytes) (Option.some.inj hpeer)
  rw [hname] at hsame
  exact absurd hsame (by decide)

end Conferencing
