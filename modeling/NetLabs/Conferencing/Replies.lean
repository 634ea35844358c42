import NetLabs.Conferencing.Interleaved

/-!
# Requests and replies

Besides notices, a client is sent replies to its requests.  In runs of requests that `connection_handler` knows, from
connections that are logged in, the replies that arrive at a socket answer the requests that were served on it, one for
each and in their order (`request_reply`).
-/

namespace Conferencing

open CText LockProg Transition

/-- The requests that are answered. -/
def answered : List UInt32 :=
  [MsgType.login, MsgType.create, MsgType.join, MsgType.newSess, MsgType.query, MsgType.sessQuery, MsgType.kick,
    MsgType.promote]

/-- The messages that answer a request.  A `NEW_SESS` refuses one. -/
def replies : List UInt32 :=
  [MsgType.loAck, MsgType.loNak, MsgType.rgAck, MsgType.rgNak, MsgType.jnAck, MsgType.jnNak, MsgType.nsAck,
    MsgType.newSess, MsgType.quAck, MsgType.sqAck, MsgType.sqNak, MsgType.kiAck, MsgType.kiNak, MsgType.pmAck,
    MsgType.pmNak]

/-- Which messages answer which request. -/
inductive Replies : UInt32 → UInt32 → Prop
  | loAck : Replies MsgType.login MsgType.loAck
  | rgAck : Replies MsgType.create MsgType.rgAck
  | jnAck : Replies MsgType.join MsgType.jnAck
  | nsAck : Replies MsgType.newSess MsgType.nsAck
  | kiAck : Replies MsgType.kick MsgType.kiAck
  | pmAck : Replies MsgType.promote MsgType.pmAck
  | answers {request type : UInt32} (h : Answers request type) : Replies request type

theorem Replies.answered {request type : UInt32} (h : Replies request type) : request ∈ answered := by
  cases h with
  | answers h => cases h <;> decide
  | _ => decide

private theorem Replies.mem_replies {request type : UInt32} (h : Replies request type) : type ∈ replies := by
  cases h with
  | answers h => cases h <;> decide
  | _ => decide

/-- The types of the replies among what was sent to a socket. -/
def repliesIn (m : Memory) (fd : Nat) : List UInt32 := ((m.inbox fd).filterMap typeOf).filter (· ∈ replies)

/-- The type of the request that an event served on the socket `fd`, if it is one that is answered. -/
def askedOn (fd : Nat) (e : Event) (t : ServerState) : List UInt32 :=
  match e with
  | .recv socketFd chunk =>
    if socketFd = fd ∧ t.conns fd ≠ .stuck then
      ((decode (recvBuffer chunk)).map fun p => p.1.type).toList.filter (· ∈ answered)
    else []
  | _ => []

/-- The request is one of those that `connection_handler` knows. -/
def Known : Event → Prop
  | .recv _ chunk => ∀ p ∈ decode (recvBuffer chunk), p.1.type ∈ requests
  | _ => True

instance : DecidablePred Known
  | .accept _ _ => inferInstanceAs (Decidable True)
  | .recv _ chunk => inferInstanceAs (Decidable (∀ p ∈ decode (recvBuffer chunk), p.1.type ∈ requests))
  | .disconnect _ => inferInstanceAs (Decidable True)

section RepliesIn

variable {m : Memory} {fd : Nat}

@[simp] theorem repliesIn_setUsers (users : List User) : repliesIn (m.setUsers users) fd = repliesIn m fd := rfl
@[simp] theorem repliesIn_appended (text : Bytes) : repliesIn (m.appended text) fd = repliesIn m fd := rfl

private theorem repliesIn_sent (dest : Nat) (type : UInt32) {source : CStr maxName} (data : Option (CStr maxData))
    (hcolon : colon ∉ source.bytes) :
    repliesIn (m.sent dest (wireOf type source data)) fd =
      repliesIn m fd ++ if dest = fd ∧ type ∈ replies then [type] else [] := by
  by_cases hdest : dest = fd
  · subst hdest
    rw [repliesIn, Memory.inbox_sent, List.filterMap_append, List.filter_append]
    by_cases htype : type ∈ replies
    · simp [repliesIn, typeOf_wireOf type data hcolon, htype]
    · simp [repliesIn, typeOf_wireOf type data hcolon, htype]
  · simp [repliesIn, Memory.inbox_sent_ne m fd hdest, hdest]

/-- Nothing that goes to all of some users is a reply. -/
private theorem repliesIn_sentAll (users : List User) {bytes : Bytes} {type : UInt32} (htype : typeOf bytes = some type)
    (hnot : type ∉ replies) : repliesIn (m.sentAll users bytes) fd = repliesIn m fd := by
  have hnone : ((users.map fun u => (u.socketFd, bytes)).filter fun p => p.1 = fd).map Prod.snd =
      (users.filter fun u => u.socketFd = fd).map fun _ => bytes := by
    simp [List.filter_map, Function.comp_def]
  rw [repliesIn, Memory.inbox, Memory.sentAll, List.filter_append, List.map_append, hnone, List.filterMap_append,
    List.filter_append, repliesIn, Memory.inbox, List.append_right_eq_self]
  refine List.filter_eq_nil_iff.2 fun type' htype' => ?_
  obtain ⟨bytes', hmem, hof⟩ := List.mem_filterMap.1 htype'
  obtain ⟨-, -, rfl⟩ := List.mem_map.1 hmem
  obtain rfl := Option.some.inj (htype.symm.trans hof)
  simpa using hnot

private theorem repliesIn_notified : repliesIn (notified m) fd = repliesIn m fd :=
  repliesIn_sentAll _ (typeOf_wireOf MsgType.pmMessage none (by decide)) (by decide)

private theorem Exits.repliesIn {name : Bytes} {m' : Memory} (h : Exits m name m') :
    repliesIn m' fd = Conferencing.repliesIn m fd := by
  cases h with
  | out _ _ => rfl
  | reserved _ _ _ => exact repliesIn_notified
  | @leaving i u _ _ _ =>
    exact (repliesIn_notified (m := m.setUsers (leftTable m.users i u.sessionId.bytes))).trans (repliesIn_setUsers _)

end RepliesIn

/-! ### One request -/

/-- A request of the type `request`, served on `socketFd`, was answered there if it is one that is answered, and nobody
else has been sent a reply. -/
def Conversed (m m' : Memory) (socketFd : Nat) (request : UInt32) : Prop :=
  ∃ types, List.Forall₂ Replies ([request].filter (· ∈ answered)) types ∧
    ∀ fd, repliesIn m' fd = repliesIn m fd ++ if socketFd = fd then types else []

section Conversed

variable {m m' : Memory} {socketFd : Nat} {request type : UInt32} {source : CStr maxName} {data : Option (CStr maxData)}

/-- A reply, after which only notices are sent. -/
theorem Conversed.reply (h : Replies request type) (hcolon : colon ∉ source.bytes)
    (hsame : ∀ fd, repliesIn m' fd = repliesIn m fd) :
    Conversed m (m'.sent socketFd (wireOf type source data)) socketFd request := by
  refine ⟨[type], ?_, fun fd => ?_⟩
  · simp [h.answered, h]
  · rw [repliesIn_sent socketFd type data hcolon, hsame]
    simp [h.mem_replies]

theorem Conversed.silent (hrequest : request ∉ answered) (hsame : ∀ fd, repliesIn m' fd = repliesIn m fd) :
    Conversed m m' socketFd request :=
  ⟨[], by simp [hrequest], fun fd => by simp [hsame]⟩

end Conversed

section Served

variable {socketFd : Nat} {conn : Conn} {received : Message} {claimed : CStr maxName} {m m' : Memory} {r : Option Conn}

/-- A request of a connection that is logged in and has its own record. -/
private theorem Served.conversed (h : Served socketFd conn received claimed m r m') (hknown : received.type ∈ requests)
    (hclaimed : colon ∉ claimed.bytes) (hsource : colon ∉ conn.source.bytes)
    (hhome : ∀ i u, Record m.users conn.source.bytes i u → u.socketFd = socketFd) :
    Conversed m m' socketFd received.type := by
  cases h with
  | @answered dest type source data htype hsource' hdest =>
    have hcolon : colon ∉ source.bytes := by
      rcases hsource' with rfl | rfl <;> assumption
    have hfd : dest = socketFd := by
      rcases hdest with rfl | ⟨i, u, hrec, rfl⟩
      · rfl
      · exact hhome i u hrec
    subst hfd
    exact .reply (.answers htype) hcolon fun _ => rfl
  | echoed h => exact absurd hknown h
  | loggedIn htype _ _ => exact htype ▸ .reply .loAck hclaimed fun _ => rfl
  | registered htype _ _ _ => exact htype ▸ .reply .rgAck hclaimed fun _ => rfl
  | exited htype h => exact .silent (by rw [htype]; decide) fun _ => h.repliesIn
  | @created i u sessionId id htype _ hrec _ _ =>
    rw [hhome i u hrec]
    exact htype ▸ .reply .nsAck hsource fun _ => rfl
  | @joined i u sessionId id htype _ hrec _ _ =>
    rw [hhome i u hrec]
    exact htype ▸ .reply .jnAck hsource fun _ => rfl
  | leftOut htype _ _ => exact .silent (by rw [htype]; decide) fun _ => rfl
  | leftReserved htype _ _ _ => exact .silent (by rw [htype]; decide) fun _ => repliesIn_notified
  | @left i u htype _ _ _ =>
    refine .silent (by rw [htype]; decide) fun _ => ?_
    exact (repliesIn_notified (m := m.setUsers (leftTable m.users i u.sessionId.bytes))).trans (repliesIn_setUsers _)
  | relayed htype _ hsize =>
    refine .silent (by rw [htype]; decide) fun _ => ?_
    exact repliesIn_sentAll _ (typeOf_chatWire hclaimed hsize) (by decide)
  | @kicked i j u t htype hrec _ _ =>
    rw [Conferencing.kicked, hhome i u hrec]
    refine htype ▸ .reply .kiAck hsource fun fd => ?_
    rw [repliesIn_sent _ _ _ (by decide)]
    simp [show MsgType.kiMessage ∉ replies by decide]
  | @promoted i j u t htype hrec _ _ =>
    rw [Conferencing.promoted, hhome i u hrec]
    refine htype ▸ .reply .pmAck hsource fun fd => ?_
    rw [repliesIn_sent _ _ _ (by decide)]
    simp [show MsgType.pmMessage ∉ replies by decide]

end Served

/-! ### Runs -/

/-- The record of a connection that is logged in points to its socket. -/
def Homed (s : ServerState) : Prop :=
  ∀ fd conn, s.conns fd = .running conn → conn.serverConnectionStatus = .online →
    ∃ i u, Record s.world.mem.users conn.source.bytes i u ∧ u.socketFd = fd

private theorem Bystands.socketFd_eq {s : ServerState} {e : Event} {name : Bytes} {u u' : User}
    (h : Bystands s e name u u') :
    u'.socketFd = u.socketFd := by
  cases h <;> rfl

section Homed

variable {socketFd : Nat} {conn conn' : Conn} {received : Message} {claimed : CStr maxName} {m m' : Memory}

/-- A request that does not end the thread keeps the socket of its own user's record. -/
private theorem Served.keeps_socket (h : Served socketFd conn received claimed m (some conn') m') {i : Nat} {u : User}
    (hrec : Record m.users conn.source.bytes i u) (hon : u.status = .online) :
    ∃ u', Record m'.users conn.source.bytes i u' ∧ u'.socketFd = u.socketFd := by
  rcases h.touched with htouched | ⟨-, password, hnew⟩
  · obtain ⟨u', hrec', htouch⟩ := hrec.pointwise htouched fun _ _ _ h => h.name_eq
    refine ⟨u', hrec', ?_⟩
    cases htouch with
    | login _ _ hoff => cases hon.symm.trans hoff
    | exit htype _ => cases h.exit_closes htype
    | leave _ h => cases h <;> rfl
    | _ => rfl
  · exact ⟨u, hnew ▸ hrec.append _, rfl⟩

/-- The locals of a connection change when it logs in, and then its account points to its socket. -/
private theorem Served.homes (h : Served socketFd conn received claimed m (some conn') m') :
    conn' = conn ∨ ∃ i u, Record m'.users conn'.source.bytes i u ∧ u.socketFd = socketFd := by
  cases h with
  | @loggedIn i u _ hrec _ => exact Or.inr ⟨i, u.login .online socketFd, hrec.modify_self fun _ => rfl, rfl⟩
  | @registered password _ _ _ hnew =>
    exact Or.inr ⟨_, registeredUser claimed password socketFd, .append_new hnew rfl, rfl⟩
  | _ => exact Or.inl rfl

theorem Homed.turn {s t : ServerState} {e : Event} (h : Homed s) (howned : Owned s) (hof : OfLoggedIn s e)
    (hturn : Turn s e t) : Homed t := by
  intro fd c hconn hon
  by_cases hfd : e.socket = fd
  · subst hfd
    cases hturn with
    | accepted _ _ =>
      simp only [Event.socket, ServerState.setConn, Function.update_self, Slot.running.injEq] at hconn
      rw [← hconn] at hon
      cases hon
    | @served socketFd chunk conn received claimed r w hold hdec _ hserved =>
      simp only [Event.socket, ServerState.setConn, Function.update_self] at hconn
      cases r with
      | none => cases hconn
      | some c' =>
        obtain rfl : c' = c := Slot.running.inj hconn
        rcases hserved.homes with rfl | hhome
        · obtain ⟨i, u, hrec, hsocket⟩ := h socketFd c' hold hon
          obtain ⟨j, v, hv, hstatus⟩ := howned.online socketFd c' hold hon
          obtain ⟨rfl, rfl⟩ := hv.unique hrec
          obtain ⟨u', hrec', hsocket'⟩ := hserved.keeps_socket hrec hstatus
          exact ⟨j, u', hrec', hsocket'.trans hsocket⟩
        · exact hhome
    | recvWaits _ _ _ => simp [Event.socket, ServerState.setConn] at hconn
    | disconnected _ _ _ => simp [Event.socket, ServerState.setConn] at hconn
    | disconnectWaits _ _ _ => simp [Event.socket, ServerState.setConn] at hconn
  · rw [hturn.conns_ne hfd] at hconn
    obtain ⟨i, u, hrec, hsocket⟩ := h fd c hconn hon
    obtain ⟨u', hrec', hbystands⟩ := bystands howned hof hturn hconn hfd hon hrec
    exact ⟨i, u', hrec', hbystands.socketFd_eq.trans hsocket⟩

theorem homed_of_reachable {s : ServerState} (hr : Reachable (server.when OfLoggedIn) s) : Homed s := by
  refine hr.invariant (fun s h => ?_) fun s e t hr h hst => h.turn (owned_of_reachable hr) hst.1 (ServerState.turn hst.2)
  obtain ⟨file, users, -, rfl⟩ := h
  intro fd conn hconn
  cases hconn

end Homed

section Run

variable {s t : ServerState} {e : Event}

/-- What one event adds to the requests and to the replies of a socket. -/
private theorem replies_next (hr : Reachable (server.when OfLoggedIn) s) (hof : OfLoggedIn s e) (hknown : Known e)
    (hst : s.next e = some t) (fd : Nat) : List.Forall₂ Replies (askedOn fd e t) (repliesIn t.world.mem fd) := by
  have hsame : ∀ {w : World Mutex Memory}, w.mem = s.clear.mem → repliesIn w.mem fd = [] := by
    intro w hmem
    rw [hmem]
    rfl
  have hturn := ServerState.turn hst
  cases hturn with
  | accepted _ _ => exact .nil
  | @served socketFd chunk conn received claimed r w hconn hdec hrun hserved =>
    have hclaimed := (decode_eq_some hdec).2.1
    have hconversed : Conversed s.clear.mem w.mem socketFd received.type := by
      rw [serve_eq hdec] at hrun
      rcases hof conn (by rw [hconn]; rfl) _ hdec with hon | htype | htype
      · obtain ⟨i, u, hrec, hsocket⟩ := homed_of_reachable hr socketFd conn hconn hon
        refine hserved.conversed (hknown _ hdec) hclaimed (record_of_reachable hr.of_when hconn hon).2 fun j v hv => ?_
        rw [(hv.unique hrec).2, hsocket]
      · have hyields : (dispatch socketFd conn (recvBuffer chunk) received claimed s.clear).Yields s.clear.mem _ :=
          verification_yields htype (recvBuffer chunk)
        rw [hrun] at hyields
        rw [show received.type = MsgType.login from htype]
        rcases hyields with ⟨i, u, -, -, -, -, -, hmem⟩ | ⟨-, data, hmem⟩
        · exact hmem ▸ .reply .loAck hclaimed fun _ => rfl
        · exact hmem ▸ .reply (.answers .loNak) hclaimed fun _ => rfl
      · have hyields : (dispatch socketFd conn (recvBuffer chunk) received claimed s.clear).Yields s.clear.mem _ :=
          registration_yields htype (recvBuffer chunk)
        rw [hrun] at hyields
        rw [show received.type = MsgType.create from htype]
        rcases hyields with ⟨password, -, -, -, -, -, -, hmem⟩ | ⟨-, data, hmem⟩
        · exact hmem ▸ .reply .rgAck hclaimed fun _ => rfl
        · exact hmem ▸ .reply (.answers .rgNak) hclaimed fun _ => rfl
    obtain ⟨types, htypes, hreplies⟩ := hconversed
    have hslot : (s.setConn socketFd w (slotOf r)).conns socketFd ≠ .stuck := by
      simp only [ServerState.setConn, Function.update_self]
      cases r <;> simp [slotOf]
    rw [show repliesIn (s.setConn socketFd w (slotOf r)).world.mem fd = repliesIn w.mem fd from rfl, hreplies,
      hsame (w := s.clear) rfl]
    by_cases hfd : socketFd = fd
    · subst hfd
      simpa [askedOn, hslot, hdec] using htypes
    · simp [askedOn, hfd]
  | @recvWaits socketFd chunk conn w hconn hrun hmem =>
    rw [show repliesIn (s.setConn socketFd w .stuck).world.mem fd = [] from hsame hmem]
    by_cases hfd : socketFd = fd
    · simp [askedOn, ServerState.setConn, hfd]
    · simp [askedOn, hfd]
  | @disconnected socketFd conn w hconn hrun hserved =>
    rcases hserved with ⟨-, hmem⟩ | ⟨-, hx⟩
    · rw [show repliesIn (s.setConn socketFd w .closed).world.mem fd = [] from hsame hmem]
      exact .nil
    · rw [show repliesIn (s.setConn socketFd w .closed).world.mem fd = repliesIn s.clear.mem fd from hx.repliesIn]
      exact .nil
  | @disconnectWaits socketFd conn w hconn hrun hmem =>
    rw [show repliesIn (s.setConn socketFd w .stuck).world.mem fd = [] from hsame hmem]
    exact .nil

end Run

/-- The replies that arrive at a socket answer, one for each and in their order, the requests served on it. -/
theorem request_reply {s : ServerState} (h0 : server.init s) (fd : Nat) (es : List Event) :
    let next := guarded (fun s e => OfLoggedIn s e ∧ Known e) ServerState.next
    List.Forall₂ Replies (outputs next (fun _ e t => askedOn fd e t) s es)
      (outputs next (fun _ _ t => repliesIn t.world.mem fd) s es) := by
  refine forall₂_outputs (P := Reachable (server.when OfLoggedIn)) (fun s e t hr hst => ?_) (.init h0) es
  simp only [guarded, Option.ite_none_right_eq_some] at hst
  obtain ⟨⟨hof, hknown⟩, hst⟩ := hst
  exact ⟨.step hr ⟨hof, hst⟩, replies_next hr hof hknown hst fd⟩

/-- `bob` registers, asks for a session that nobody has created, and creates it. -/
def bobConverses : List Event :=
  [.accept 3 serverName, .recv 3 (ascii "13:1:bob:x"), .recv 3 (ascii "4:1:bob:s"), .recv 3 (ascii "8:1:bob:s")]

theorem request_reply_bob :
    let next := guarded (fun s e => OfLoggedIn s e ∧ Known e) ServerState.next
    List.Forall₂ Replies (outputs next (fun _ e t => askedOn 3 e t) (started [] []) bobConverses)
        (outputs next (fun _ _ t => repliesIn t.world.mem 3) (started [] []) bobConverses) ∧
      outputs next (fun _ e t => askedOn 3 e t) (started [] []) bobConverses =
        [MsgType.create, MsgType.join, MsgType.newSess] ∧
      outputs next (fun _ _ t => repliesIn t.world.mem 3) (started [] []) bobConverses =
        [MsgType.rgAck, MsgType.jnNak, MsgType.nsAck] :=
  ⟨request_reply ⟨[], [], ⟨1, rfl⟩, rfl⟩ 3 bobConverses, by decide, by decide⟩

end Conferencing
