import NetLabs.Conferencing.Interleaved

/-!
# What the users of a session hear

Over a run, the chat messages that arrive at the socket of a user who stays in a session are exactly those that have
been sent in the session meanwhile, in the order in which they were served (`chat_order`): two users who stay hear the
same.
-/

namespace Conferencing

open CText LockProg Transition

/-! ### The type of what is sent -/

section Types

variable {t rest bytes : Bytes} {type type' : UInt32}

/-- The type of a message is what stands before the first colon. -/
private theorem typeOf_eq_some (h : typeOf bytes = some type) :
    ∃ t rest, bytes = t ++ colon :: rest ∧ colon ∉ t ∧ type = atoi t := by
  simp only [typeOf, Option.map_eq_some_iff] at h
  obtain ⟨⟨received, claimed⟩, hdec, rfl⟩ := h
  obtain ⟨m, hread, hrest⟩ := Option.bind_eq_some_iff.1 hdec
  obtain ⟨c, -, hpair⟩ := Option.bind_eq_some_iff.1 hrest
  cases hpair
  obtain ⟨t, n, s, rest, hreads⟩ := stringToMessage_some hread
  have hzeros : colon ∉ List.replicate (maximumBufferSize - bytes.length) (0 : Byte) := by
    simp only [List.mem_replicate, not_and]
    intro _
    decide
  obtain ⟨rest', hbytes, -⟩ := field_of_append hzeros hreads.buffer_eq
  exact ⟨t, rest', hbytes, hreads.type_field, hreads.type_eq⟩

private theorem typeOf_field (ht : colon ∉ t) (h : typeOf (t ++ colon :: rest) = some type) : type = atoi t := by
  obtain ⟨t', rest', heq, ht', rfl⟩ := typeOf_eq_some h
  rw [(field_unique ht ht' heq).1]

private theorem typeOf_wireOf_eq {source : CStr maxName} {data : Option (CStr maxData)}
    (h : typeOf (wireOf type source data) = some type') : type' = type := by
  have hwire : wireOf type source data = printD type ++ colon :: (printD (UInt32.ofNat (textOrEmpty data).bytes.length) ++
      colon :: (source.bytes ++ colon :: (textOrEmpty data).bytes)) := by
    simp [wireOf, wire, header]
  rw [hwire] at h
  rw [typeOf_field (colon_not_mem_printD type) h, atoi_printD]

/-- A message that is sent back has the type that it came with, if it has one. -/
private theorem typeOf_echo {chunk : Bytes} {received : Message} {claimed : CStr maxName}
    (hdec : decode (recvBuffer chunk) = some (received, claimed))
    (h : typeOf (cstr (recvBuffer chunk)) = some type) : type = received.type := by
  obtain ⟨m, hread, hrest⟩ := Option.bind_eq_some_iff.1 hdec
  obtain ⟨c, -, hpair⟩ := Option.bind_eq_some_iff.1 hrest
  cases hpair
  obtain ⟨t, n, s, rest, hreads⟩ := stringToMessage_some hread
  obtain ⟨t', rest', heq, ht', rfl⟩ := typeOf_eq_some h
  -- the text that is sent back is the beginning of the buffer
  have hsplit := List.takeWhile_append_dropWhile (p := (· ≠ 0)) (l := recvBuffer chunk)
  have hbuffer : t ++ colon :: (n ++ colon :: (s ++ colon :: rest)) =
      t' ++ colon :: (rest' ++ (recvBuffer chunk).dropWhile (· ≠ 0)) := by
    rw [← hreads.buffer_eq, ← List.cons_append, ← List.append_assoc, ← heq]
    exact hsplit.symm
  rw [hreads.type_eq, (field_unique hreads.type_field ht' hbuffer).1]

end Types

/-! ### What is heard -/

/-- No chat message has been sent. -/
def ChatFree (m : Memory) : Prop := ∀ p ∈ m.outbox, typeOf p.2 ≠ some MsgType.message

section ChatFree

variable {m m' : Memory}

theorem ChatFree.sent (h : ChatFree m) {fd : Nat} {type : UInt32} {source : CStr maxName} {data : Option (CStr maxData)}
    (hne : type ≠ MsgType.message) : ChatFree (m.sent fd (wireOf type source data)) := by
  intro p hp
  rw [Memory.outbox_sent, List.mem_append, List.mem_singleton] at hp
  rcases hp with hp | rfl
  · exact h p hp
  · exact fun htype => hne (typeOf_wireOf_eq htype).symm

theorem ChatFree.notified (h : ChatFree m) : ChatFree (notified m) := by
  intro p hp
  simp only [Conferencing.notified, Memory.sentAll, List.mem_append, List.mem_map] at hp
  rcases hp with hp | ⟨u, -, rfl⟩
  · exact h p hp
  · exact fun htype => absurd (typeOf_wireOf_eq htype) (by decide)

private theorem Exits.chatFree {name : Bytes} (h : Exits m name m') (hm : ChatFree m) : ChatFree m' := by
  cases h with
  | out _ _ => exact hm
  | reserved _ _ _ => exact hm.notified
  | @leaving i u _ _ _ =>
    have hleft : ChatFree (m.setUsers (leftTable m.users i u.sessionId.bytes)) := hm
    exact hleft.notified

private theorem Answers.ne_message {request type : UInt32} (h : Answers request type) : type ≠ MsgType.message := by
  cases h <;> decide

/-- Only a `MESSAGE` makes a request heard as chat. -/
private theorem Served.chatFree {socketFd : Nat} {conn : Conn} {received : Message} {claimed : CStr maxName}
    {r : Option Conn}
    (h : Served socketFd conn received claimed m r m') (hm : ChatFree m) (htype : received.type ∈ requests)
    (hne : received.type ≠ MsgType.message) : ChatFree m' := by
  cases h with
  | answered h _ _ => exact hm.sent h.ne_message
  | echoed h => exact absurd htype h
  | @loggedIn i u _ _ _ =>
    have hm' : ChatFree (m.setUsers (m.users.modify i (User.login .online socketFd))) := hm
    exact hm'.sent (by decide)
  | @registered password _ _ _ _ =>
    have hm' : ChatFree ((m.setUsers (m.users ++ [registeredUser claimed password socketFd])).appended
      (recordLine claimed.bytes password.bytes)) := hm
    exact hm'.sent (by decide)
  | exited _ h => exact h.chatFree hm
  | @created i u sessionId id _ _ _ _ _ =>
    have hm' : ChatFree (m.setUsers (m.users.modify i (User.create id))) := hm
    exact hm'.sent (by decide)
  | @joined i u sessionId id _ _ _ _ _ =>
    have hm' : ChatFree (m.setUsers (m.users.modify i (User.join id))) := hm
    exact hm'.sent (by decide)
  | leftOut _ _ _ => exact hm
  | leftReserved _ _ _ _ => exact hm.notified
  | @left i u _ _ _ _ =>
    have hleft : ChatFree (m.setUsers (leftTable m.users i u.sessionId.bytes)) := hm
    exact hleft.notified
  | relayed h _ _ => exact absurd h hne
  | @kicked i j u t _ _ _ _ =>
    have hm' : ChatFree (m.setUsers (m.users.modify j User.kick)) := hm
    exact (hm'.sent (by decide)).sent (by decide)
  | @promoted i j u t _ _ _ _ =>
    have hm' : ChatFree (m.setUsers ((m.users.modify j (User.setRole .admin)).modify i (User.setRole .user))) := hm
    exact (hm'.sent (by decide)).sent (by decide)

end ChatFree

/-- The chat messages that an event brought to a socket. -/
def heard (fd : Nat) (t : ServerState) : List Bytes :=
  (t.world.mem.inbox fd).filter fun bytes => typeOf bytes = some MsgType.message

/-- What `send_message_in_a_session` sends for a `MESSAGE`. -/
def relayBytes (received : Message) (claimed : CStr maxName) : Option Bytes := do
  let message ← fillMessage .zero MsgType.message received.size claimed.mem received.data.bytes
  let (buffer, _) ← messageToString message message.size (CArray.zero accBufferSize)
  some (cstr buffer.bytes)

/-- The chat message that an event sends in the session `id`. -/
def said (id : Bytes) (s : ServerState) (e : Event) : List Bytes :=
  match e with
  | .recv socketFd chunk => ((s.conns socketFd).conn?.bind fun _ => (decode (recvBuffer chunk)).bind fun p =>
      if p.1.type = MsgType.message ∧ s.world.held .userList = false ∧
          (ownRecord s.world.mem.users p.2.bytes).map (·.sessionId.bytes) = some id then
        relayBytes p.1 p.2
      else none).toList
  | _ => []

/-- The socket is that of one user who is in a session, and the session is `id`. -/
def Hears (users : List User) (fd : Nat) (id : Bytes) : Prop :=
  (users.filter fun u => u.status = .online ∧ u.inSession = .online ∧ u.socketFd = fd).map (·.sessionId.bytes) = [id]

instance (users : List User) (fd : Nat) (id : Bytes) : Decidable (Hears users fd id) := by
  unfold Hears
  infer_instance

private theorem heard_chatFree {t : ServerState} (h : ChatFree t.world.mem) (fd : Nat) : heard fd t = [] := by
  refine List.filter_eq_nil_iff.2 fun bytes hbytes => ?_
  obtain ⟨p, hp, rfl⟩ := List.mem_map.1 hbytes
  simpa using h p (List.mem_of_mem_filter hp)

/-- Who hears a session gets each of its messages once, and no other. -/
theorem inbox_sentAll {m : Memory} (hempty : m.outbox = []) {fd : Nat} {id : Bytes} (hhears : Hears m.users fd id)
    (sessionId bytes : Bytes) :
    (m.sentAll (recipients m.users sessionId) bytes).inbox fd = if sessionId = id then [bytes] else [] := by
  have hfilter : (recipients m.users sessionId).filter (fun u => u.socketFd = fd) =
      (m.users.filter fun u => u.status = .online ∧ u.inSession = .online ∧ u.socketFd = fd).filter
        fun u => u.sessionId.bytes = sessionId := by
    rw [recipients, List.filter_filter, List.filter_filter]
    congr 1
    funext u
    simp only [Bool.decide_and]
    ac_rfl
  rw [inbox_recipients hempty, hfilter]
  obtain ⟨u, hu, hid⟩ := List.map_eq_singleton_iff.1 hhears
  rw [hu]
  by_cases h : sessionId = id
  · simp [h, hid]
  · rw [if_neg h]
    simp [hid, Ne.symm h]

private theorem relayBytes_eq {received : Message} {claimed : CStr maxName} (hsize : received.size.toNat ≤ maxData) :
    relayBytes received claimed =
      some (chatWire received.size claimed (chatText received.size received.data.bytes hsize)) := by
  obtain ⟨r, hfill, hchat⟩ := fillMessage_chat .zero hsize claimed
    (show received.size.toNat ≤ received.data.bytes.length by rw [received.data.size_eq]; exact hsize)
  obtain ⟨out, count, hprint, hcstr⟩ := hchat.messageToString (CArray.zero accBufferSize) (by decide)
  simp [relayBytes, hfill, hprint, hcstr]

section Heard

variable {s t : ServerState} {e : Event} {fd : Nat} {id : Bytes}

/-- A `MESSAGE` is heard by who is in the session of the user it is from. -/
private theorem heard_message {socketFd : Nat} {chunk : Bytes} {conn : Conn} {received : Message}
    {claimed : CStr maxName}
    (hconn : s.conns socketFd = .running conn) (hdec : decode (recvBuffer chunk) = some (received, claimed))
    (htype : received.type = MsgType.message) (hhears : Hears s.world.mem.users fd id)
    (hst : s.next (.recv socketFd chunk) = some t) : heard fd t = said id s (.recv socketFd chunk) := by
  have hsize := (decode_eq_some hdec).2.2
  simp only [ServerState.next, hconn, Option.ite_none_right_eq_some] at hst
  obtain ⟨-, hst⟩ := hst
  have hsaid : said id s (.recv socketFd chunk) =
      if s.world.held .userList = false ∧ (ownRecord s.world.mem.users claimed.bytes).map (·.sessionId.bytes) = some id
      then [chatWire received.size claimed (chatText received.size received.data.bytes hsize)] else [] := by
    simp only [said, hconn, Slot.conn?, Option.bind_some, hdec, htype, true_and, relayBytes_eq hsize]
    split <;> rfl
  have hheld : s.clear.held .userList = s.world.held .userList := rfl
  rcases record_or_none s.clear.mem.users claimed.bytes with h | ⟨i, u, hrec⟩
  · rw [serve_eq hdec, message_notFound htype hsize _ h] at hst
    cases hst
  · have hown : ownRecord s.world.mem.users claimed.bytes = some u := ownRecord_eq hrec
    rw [serve_message hdec htype hsize hrec, hheld] at hst
    rw [hsaid, hown]
    cases hul : s.world.held .userList with
    | true =>
      rw [hul] at hst
      obtain rfl := Option.some.inj hst
      simp [heard, Memory.inbox, ServerState.setConn, ServerState.clear]
    | false =>
      rw [hul] at hst
      obtain rfl := Option.some.inj hst
      have hinbox := inbox_sentAll (m := s.clear.mem) rfl hhears u.sessionId.bytes
        (chatWire received.size claimed (chatText received.size received.data.bytes hsize))
      simp only [heard, ServerState.setConn, World.mem_setMem, hinbox, Option.map_some, Option.some.injEq, true_and]
      split
      · simp [typeOf_chatWire (decode_eq_some hdec).2.1 (size_chatText hsize)]
      · rfl

/-- What one event lets a user of the session hear. -/
private theorem heard_next (hhears : Hears s.world.mem.users fd id) (hst : s.next e = some t) :
    heard fd t = said id s e := by
  have hclear : ChatFree s.clear.mem := fun p hp => by cases hp
  have hsame : ∀ {w : World Mutex Memory}, w.mem = s.clear.mem → ChatFree w.mem := fun h => h ▸ hclear
  have hturn := ServerState.turn hst
  cases hturn with
  | accepted _ _ => exact heard_chatFree hclear fd
  | @served socketFd chunk conn received claimed r w hconn hdec hrun hserved =>
    by_cases htype : received.type = MsgType.message
    · exact heard_message hconn hdec htype hhears hst
    · have hsaid : said id s (.recv socketFd chunk) = [] := by
        simp [said, hconn, Slot.conn?, hdec, htype]
      rw [hsaid]
      by_cases hknown : received.type ∈ requests
      · exact heard_chatFree (hserved.chatFree hclear hknown htype) fd
      · -- the bytes that come back are those of a message of another type
        have hecho : (dispatch socketFd conn (recvBuffer chunk) received claimed s.clear).Yields s.clear.mem _ :=
          echo_yields hknown (recvBuffer chunk)
        rw [serve_eq hdec] at hrun
        rw [hrun] at hecho
        refine heard_chatFree (t := s.setConn socketFd w (slotOf r)) ?_ fd
        show ChatFree w.mem
        rw [hecho.2]
        intro p hp
        rw [Memory.outbox_sent, List.mem_append, List.mem_singleton] at hp
        rcases hp with hp | rfl
        · exact hclear p hp
        · exact fun h => htype (typeOf_echo hdec h).symm
  | @recvWaits socketFd chunk conn w hconn hrun hmem =>
    rw [heard_chatFree (t := s.setConn socketFd w .stuck) (hsame hmem)]
    cases hdec : decode (recvBuffer chunk) with
    | none => simp [said, hconn, Slot.conn?, hdec]
    | some p =>
      obtain ⟨received, claimed⟩ := p
      by_cases htype : received.type = MsgType.message
      · rw [← heard_message hconn hdec htype hhears hst]
        exact (heard_chatFree (t := s.setConn socketFd w .stuck) (hsame hmem) fd).symm
      · simp [said, hconn, Slot.conn?, hdec, htype]
  | @disconnected socketFd conn w hconn hrun hserved =>
    refine heard_chatFree (t := s.setConn socketFd w .closed) ?_ fd
    rcases hserved with ⟨-, hmem⟩ | ⟨-, hx⟩
    · exact hsame hmem
    · exact hx.chatFree hclear
  | @disconnectWaits socketFd conn w hconn hrun hmem =>
    exact heard_chatFree (t := s.setConn socketFd w .stuck) (hsame hmem) fd

end Heard

/-- What a user hears who stays in a session is what has been said there. -/
private theorem heard_run {cond : ServerState → Event → Prop} [∀ s, DecidablePred (cond s)] {fd : Nat} {id : Bytes}
    (hcond : ∀ s e, cond s e → Hears s.world.mem.users fd id) (s : ServerState) (es : List Event) :
    outputs (guarded cond ServerState.next) (fun _ _ t => heard fd t) s es =
      outputs (guarded cond ServerState.next) (fun s e _ => said id s e) s es := by
  have hrun : List.Forall₂ Eq (outputs (guarded cond ServerState.next) (fun _ _ t => heard fd t) s es)
      (outputs (guarded cond ServerState.next) (fun s e _ => said id s e) s es) := by
    refine forall₂_outputs (P := fun _ => True) (fun s e t _ hst => ⟨trivial, ?_⟩) trivial es
    simp only [guarded, Option.ite_none_right_eq_some] at hst
    rw [heard_next (hcond s e hst.1) hst.2]
    exact List.forall₂_same.2 fun _ _ => rfl
  exact List.forall₂_eq_eq_eq ▸ hrun

/-- As long as two users stay in a session, each hears exactly what is said in it, in the order in which it is served,
and so both hear the same. -/
theorem chat_order (fd fd' : Nat) (id : Bytes) (s : ServerState) (es : List Event) :
    let stays := guarded (fun s _ => Hears s.world.mem.users fd id ∧ Hears s.world.mem.users fd' id) ServerState.next
    outputs stays (fun _ _ t => heard fd t) s es = outputs stays (fun s e _ => said id s e) s es ∧
      outputs stays (fun _ _ t => heard fd' t) s es = outputs stays (fun _ _ t => heard fd t) s es := by
  have h := @heard_run (fun s _ => Hears s.world.mem.users fd id ∧ Hears s.world.mem.users fd' id) _ fd id
    (fun _ _ h => h.1) s es
  exact ⟨h, (heard_run (fun _ _ h => h.2) s es).trans h.symm⟩

end Conferencing
