import NetLabs.Conferencing.Accounts
import NetLabs.Conferencing.Ghosts
import NetLabs.Conferencing.TypedLines

/-!
# What the server makes of a username and a password

The client cuts a line at blanks, and checks two lengths; the codec cuts a message at colons.  So a username with a colon
is read as the part before the colon, and the password as the bytes behind it (`decode_wireOf_field`).  Without a colon
both arrive as they were typed, and an account is only opened by its own username and password (`credentials_as_typed`).
-/

namespace Conferencing

open CText LockProg Transition

/-! ### What a client sends -/

/-- Some client takes some line as the request with this username and password, and sends `bytes` for it once it is
connected. -/
def Presents (request : UInt32) (username password bytes : Bytes) : Prop :=
  ∃ (c c' : Client) (locals : Locals) (line : Bytes) (rest : List Bytes),
    c.enter locals line = some (c', .connect request (username :: password :: rest)) ∧
      accessRequest request username password = some [bytes]

section Requests

variable {request : UInt32} {username password bytes : Bytes}

/-- The pairs that some client takes. -/
private theorem presents_iff : Presents request username password bytes ↔
    (∃ command, AccessCommand command request) ∧ Token username ∧ Token password ∧
      ∃ (name : CStr maxName) (data : CStr maxData), name.bytes = username ∧ data.bytes = password ∧
        password.length < maxPasswordLength ∧ bytes = wireOf request name (some data) := by
  have hnul : ∀ {s}, Token s → (0 : Byte) ∉ s := fun h h0 => (h.2 0 h0).2 rfl
  constructor
  · rintro ⟨c, c', locals, line, rest, henter, hsent⟩
    obtain ⟨-, -, hline⟩ := enter_connect_iff.1 henter
    obtain ⟨command, hcommand, hwords⟩ := hline.words_eq
    have hu : Token username := token_of_mem_words (by rw [hwords]; simp)
    have hp : Token password := token_of_mem_words (by rw [hwords]; simp)
    exact ⟨⟨command, hcommand⟩, hu, hp, (accessRequest_iff hcommand.request_ne (hnul hu) (hnul hp)).1 hsent⟩
  · rintro ⟨⟨command, hcommand⟩, hu, hp, hsent⟩
    let c : Client := ⟨.empty (by decide), .offline, .offline, .offline, .user⟩
    obtain ⟨name, data, hname, hdata, hfits, -⟩ := id hsent
    refine ⟨c, c, ⟨.zero, .zero _⟩, command ++ 32 :: (username ++ 32 :: (password ++ 32 :: ascii "h 1")),
      [ascii "h", ascii "1"], enter_connect_iff.2 ⟨rfl, rfl, ?_⟩,
      (accessRequest_iff hcommand.request_ne (hnul hu) (hnul hp)).2 hsent⟩
    have hline : (0 : Byte) ∉ command ++ 32 :: (username ++ 32 :: (password ++ 32 :: ascii "h 1")) := by
      have hc : (0 : Byte) ∉ command := by cases hcommand <;> decide
      have hblank : (0 : Byte) ≠ 32 := by decide
      have hhost : (0 : Byte) ∉ ascii "h 1" := by decide
      simp only [List.mem_append, List.mem_cons, not_or]
      exact ⟨hc, hblank, hnul hu, hblank, hnul hp, hblank, hhost⟩
    have hwords : words (cstr (command ++ 32 :: (username ++ 32 :: (password ++ 32 :: ascii "h 1")))) =
        [command, username, password, ascii "h", ascii "1"] := by
      have hne : command ≠ [] := by cases hcommand <;> decide
      have hall : (command.all fun b => !isDelimiter b) = true := by cases hcommand <;> decide
      have hc : ∀ b ∈ command, isDelimiter b = false := fun b hb => by simpa using List.all_eq_true.1 hall b hb
      have hhost : words (ascii "h 1") = [ascii "h", ascii "1"] := by decide
      rw [cstr_of_nulFree hline, words_append hne hc (by decide),
        words_append hu.1 (fun b hb => (hu.2 b hb).1) (by decide),
        words_append hp.1 (fun b hb => (hp.2 b hb).1) (by decide), hhost]
    refine ⟨?_, ⟨command, hcommand, hwords⟩, rfl, ?_⟩
    · cases hcommand <;> rfl
    · have hulen : username.length < 17 := hname ▸ name.fits
      have hplen : password.length < 20 := hfits
      intro w hw
      simp only [List.mem_cons, List.not_mem_nil, or_false] at hw
      rcases hw with rfl | rfl | rfl | rfl
      · exact Nat.lt_trans hulen (by decide)
      · exact Nat.lt_trans hplen (by decide)
      · decide
      · decide

/-- What a client sends without a colon in the username passes for an account. -/
theorem Presents.typedAccount (h : Presents request username password bytes) (hcolon : colon ∉ username) :
    TypedAccount username password := by
  obtain ⟨-, hu, hp, name, -, rfl, -, hfits, -⟩ := presents_iff.1 h
  have hdelimiter : ∀ {s : Bytes}, Token s → (32 : Byte) ∉ s ∧ (10 : Byte) ∉ s := fun hs =>
    ⟨fun hb => absurd (hs.2 32 hb).1 (by decide), fun hb => absurd (hs.2 10 hb).1 (by decide)⟩
  exact ⟨hu.1, hp.1, hdelimiter hu, hdelimiter hp, Nat.le_of_lt_succ name.fits, Nat.le_of_lt_succ hfits, hcolon⟩

end Requests

/-! ### What the server reads -/

/-- The server reads exactly this username and password. -/
def AsTyped (bytes username password : Bytes) : Prop :=
  ∃ received claimed, decode (recvBuffer bytes) = some (received, claimed) ∧ claimed.bytes = username ∧
    cstr received.data.bytes = password

section Reading

variable {type : UInt32} {name a : CStr maxName} {data : CStr maxData} {tail : Bytes}

/-- The data that the server counts when the source ends at an earlier colon. -/
def countedData (name a : CStr maxName) (data : CStr maxData) (tail : Bytes)
    (h : name.bytes ++ colon :: data.bytes = a.bytes ++ colon :: tail) : CStr maxData where
  bytes := tail.take data.bytes.length
  nulFree := fun h0 => by
    have hmem : (0 : Byte) ∈ name.bytes ++ colon :: data.bytes := by
      rw [h]
      exact List.mem_append_right _ (List.mem_cons_of_mem _ (List.mem_of_mem_take h0))
    rcases List.mem_append.1 hmem with h0 | h0
    · exact name.nulFree h0
    · exact data.nulFree ((List.mem_cons.1 h0).resolve_left (by decide))
  fits := Nat.lt_of_le_of_lt (List.length_take_le _ _) data.fits

/-- A source with a colon is read as what stands before its first colon, and the rest of it is counted as data. -/
private theorem decode_wireOf_field (type : UInt32) (h : name.bytes ++ colon :: data.bytes = a.bytes ++ colon :: tail)
    (ha : colon ∉ a.bytes) :
    decode (recvBuffer (wireOf type name (some data))) = some (reply type a (countedData name a data tail h), a) := by
  have hnat := toNat_length_data data
  have hfits := data.fits
  have htype := length_printD_le type
  have hlen : data.bytes.length ≤ tail.length := by
    have hlength := congrArg List.length h
    have hle : a.bytes.length ≤ name.bytes.length := by
      by_contra hlt
      -- otherwise the colon behind `name` would stand in `a`
      have hget := congrArg (fun l => l[name.bytes.length]?) h
      rw [List.getElem?_append_right (Nat.le_refl _), Nat.sub_self,
        List.getElem?_append_left (Nat.lt_of_not_le hlt)] at hget
      exact ha (List.mem_of_getElem? hget.symm)
    simp only [List.length_append, List.length_cons] at hlength
    omega
  have hcount : (countedData name a data tail h).bytes.length = data.bytes.length := by
    rw [countedData, List.length_take, Nat.min_eq_left hlen]
  obtain ⟨zeros, hzeros⟩ : ∃ zeros, recvBuffer (wireOf type name (some data)) =
      header type (UInt32.ofNat data.bytes.length) name.bytes ++ data.bytes ++ zeros := ⟨_, rfl⟩
  have hbuffer : recvBuffer (wireOf type name (some data)) = printD type ++ colon ::
      (printD (UInt32.ofNat data.bytes.length) ++ colon :: (a.bytes ++ colon :: (tail ++ zeros))) := by
    have hjoin := congrArg (· ++ zeros) h
    simp only [List.append_assoc, List.cons_append] at hjoin
    rw [hzeros, List.append_assoc, header_append, hjoin]
  have hread := stringToMessage_fields (CArray.zero 12) .zero (colon_not_mem_printD type) (by omega) ha
    (by rw [hnat]; exact Nat.le_of_lt hfits)
    (show (UInt32.ofNat data.bytes.length).toNat ≤ (tail ++ zeros).length by rw [hnat, List.length_append]; omega)
  -- the bytes that are counted are followed by the zeroes of `data`
  have htake : (tail ++ zeros).take (UInt32.ofNat data.bytes.length).toNat = (countedData name a data tail h).bytes := by
    rw [hnat, List.take_append_of_le_length hlen]
    rfl
  have hroom := (countedData name a data tail h).fits
  have hdata : (CArray.zero maxData).write 0 (countedData name a data tail h).bytes (by omega) =
      (CArray.zero maxData).write 0 (countedData name a data tail h).mem (by rw [CStr.length_mem]; omega) :=
    (CArray.zero_write_nul _).symm
  have hmessage : stringToMessage (CArray.zero 12) .zero (recvBuffer (wireOf type name (some data))) =
      some (reply type a (countedData name a data tail h)) := by
    rw [hbuffer, hread, atoi_printD]
    simp only [htake, Message.zero, hdata]
    simp only [reply, hcount]
  simp only [decode, hmessage, Option.bind_eq_bind, Option.bind_some, text_reply_source]
  rfl

end Reading

section Pairs

variable {request : UInt32} {username password bytes : Bytes}

/-- A pair arrives as it was typed exactly when the username has no colon. -/
private theorem asTyped_iff (h : Presents request username password bytes) :
    AsTyped bytes username password ↔ colon ∉ username := by
  obtain ⟨-, -, -, name, data, rfl, rfl, -, rfl⟩ := presents_iff.1 h
  constructor
  · rintro ⟨received, claimed, hdec, hname, -⟩
    rw [← hname]
    exact (decode_eq_some hdec).2.1
  · intro hcolon
    exact ⟨_, _, decode_wireOf request (some data) hcolon, rfl, CArray.cstr_of_text? (text_reply_data _ _ _)⟩

/-- The last byte of the password of a username with a colon is not counted, so another password is read the same. -/
private theorem exists_same_reading (h : Presents request username password bytes) (hcolon : colon ∈ username) :
    ∃ password' bytes', password' ≠ password ∧ Presents request username password' bytes' ∧
      decode (recvBuffer bytes') = decode (recvBuffer bytes) := by
  obtain ⟨hcommand, hu, hp, name, data, rfl, rfl, hfits, rfl⟩ := presents_iff.1 h
  obtain ⟨s, x, hdata⟩ := (List.eq_nil_or_concat data.bytes).resolve_left hp.1
  obtain ⟨y, hyx, hy⟩ : ∃ y : Byte, y ≠ x ∧ isDelimiter y = false ∧ y ≠ 0 := by
    by_cases hx : x = 97
    · exact ⟨98, by rw [hx]; decide, by decide, by decide⟩
    · exact ⟨97, Ne.symm hx, by decide, by decide⟩
  rw [List.concat_eq_append] at hdata
  have hp' : Token (s ++ [y]) := by
    refine ⟨by simp, fun b hb => ?_⟩
    rcases List.mem_append.1 hb with hb | hb
    · exact hp.2 b (by rw [hdata]; exact List.mem_append_left _ hb)
    · rw [List.mem_singleton.1 hb]
      exact hy
  have hlength : (s ++ [y]).length = data.bytes.length := by rw [hdata, List.length_append, List.length_append]; rfl
  let data' : CStr maxData := ⟨s ++ [y], fun h0 => (hp'.2 0 h0).2 rfl, by rw [hlength]; exact data.fits⟩
  obtain ⟨a, b, hname, ha⟩ := List.eq_append_cons_of_mem hcolon
  let source : CStr maxName := ⟨a, fun h0 => name.nulFree (by rw [hname]; exact List.mem_append_left _ h0), by
    have := name.fits
    rw [hname, List.length_append] at this
    omega⟩
  have hsplit : ∀ d : Bytes, name.bytes ++ colon :: d = source.bytes ++ colon :: (b ++ colon :: d) := fun d => by
    rw [hname, List.append_assoc, List.cons_append]
  -- the colon in the username has shifted the password by one byte or more
  have hcount : (b ++ colon :: data'.bytes).take data'.bytes.length = (b ++ colon :: data.bytes).take data.bytes.length := by
    have hle : data.bytes.length ≤ (b ++ colon :: s).length := by
      rw [hdata]
      simp only [List.length_append, List.length_cons, List.length_nil]
      omega
    have hcut : ∀ z : Byte, (b ++ colon :: (s ++ [z])).take data.bytes.length = (b ++ colon :: s).take data.bytes.length := by
      intro z
      rw [← List.cons_append, ← List.append_assoc, List.take_append_of_le_length hle]
    show (b ++ colon :: (s ++ [y])).take (s ++ [y]).length = _
    rw [hlength, hcut y]
    conv_rhs => rw [hdata]
    rw [← hcut x, hdata]
  refine ⟨s ++ [y], wireOf request name (some data'), ?_, presents_iff.2 ⟨hcommand, hu, hp', name, data', rfl, rfl,
    by rw [hlength]; exact hfits, rfl⟩, ?_⟩
  · rw [hdata]
    exact fun h => hyx (List.singleton_inj.1 (List.append_cancel_left h))
  · rw [decode_wireOf_field request (hsplit data'.bytes) ha, decode_wireOf_field request (hsplit data.bytes) ha]
    have hdata' : countedData name source data' _ (hsplit data'.bytes) = countedData name source data _ (hsplit data.bytes) :=
      CStr.ext hcount
    rw [hdata']

end Pairs

/-! ### The accounts that are opened -/

/-- The account with this name and password is in the table. -/
def HasAccount (users : List User) (name password : Bytes) : Prop :=
  ∃ i account, databaseSearchUser users name = some i ∧ (accounts users)[i]? = some account ∧ account.2.bytes = password

section Accounts

variable {s t : ServerState} {e : Event} {name : CStr maxName} {n password password' : Bytes}

theorem HasAccount.unique {users : List User} (h : HasAccount users n password) (h' : HasAccount users n password') :
    password = password' := by
  obtain ⟨i, account, hi, haccount, rfl⟩ := h
  obtain ⟨j, account', hj, haccount', rfl⟩ := h'
  obtain rfl : i = j := Option.some.inj (hi.symm.trans hj)
  obtain rfl : account = account' := Option.some.inj (haccount.symm.trans haccount')
  rfl

theorem HasAccount.turn (h : HasAccount s.world.mem.users n password) (hturn : Turn s e t) :
    HasAccount t.world.mem.users n password := by
  obtain ⟨i, account, hi, haccount, hpassword⟩ := h
  obtain ⟨new, hnew⟩ := accounts_of_turn hturn
  have hlt : i < (accounts s.world.mem.users).length := (List.getElem?_eq_some_iff.1 haccount).1
  exact ⟨i, account, search_of_turn hturn hi, by rw [← hnew, List.getElem?_append_left hlt, haccount], hpassword⟩

theorem HasAccount.later (h : HasAccount s.world.mem.users n password) (hlater : Later s t) :
    HasAccount t.world.mem.users n password := by
  induction hlater with
  | refl => exact h
  | tail _ hst ih =>
    obtain ⟨e, hnext⟩ := hst
    exact ih.turn (ServerState.turn hnext)

/-- An account is only put online by its own name and password, or has just been registered with them. -/
private theorem hasAccount_of_login (hturn : Turn s e t) (h : loggedInBy e t = some name) :
    ∃ socketFd chunk received, e = .recv socketFd chunk ∧ decode (recvBuffer chunk) = some (received, name) ∧
      HasAccount t.world.mem.users name.bytes (cstr received.data.bytes) := by
  obtain ⟨socketFd, chunk, conn, received, rfl, hconn, hdec, -, haccepts⟩ := accepts_of_login hturn h
  refine ⟨socketFd, chunk, received, rfl, hdec, ?_⟩
  rcases haccepts with ⟨-, hcode⟩ | ⟨htype, -, -, hnew⟩
  · -- the table had the account before the turn
    refine HasAccount.turn ?_ hturn
    unfold loginCode at hcode
    split at hcode
    · cases hcode
    · rename_i user huser
      obtain ⟨i, hi, hget⟩ := Option.bind_eq_some_iff.1 huser
      split at hcode
      · rename_i hpassword
        exact ⟨i, user.account, hi, by rw [accounts, List.getElem?_map, hget]; rfl, hpassword⟩
      · cases hcode
  · rcases hturn.login_cases with ⟨claimed, hlogin⟩ | ⟨claimed, password, hreg⟩ | hneither
    · obtain rfl : claimed = name := Option.some.inj (hlogin.loggedIn.symm.trans h)
      obtain ⟨i, u, hrec, -⟩ := hlogin.users
      cases hrec.found.symm.trans hnew
    · obtain rfl : claimed = name := Option.some.inj (hreg.loggedIn.symm.trans h)
      have hrec : Record t.world.mem.users claimed.bytes s.world.mem.users.length
          (registeredUser claimed password socketFd) := by
        rw [hreg.users]
        exact .append_new hnew rfl
      refine ⟨_, _, hrec.found, by rw [accounts, List.getElem?_map, hrec.get]; rfl, ?_⟩
      obtain ⟨p, hp, hpassword⟩ := Option.bind_eq_some_iff.1 hreg.registered
      rw [acknowledged_recv hdec, Option.ite_none_right_eq_some] at hp
      obtain rfl := Option.some.inj hp.2
      obtain ⟨word, hword, heq⟩ := Option.map_eq_some_iff.1 hpassword
      obtain rfl : word = password := (Prod.mk.inj heq).2
      exact CStr.ofBytes?_eq_some.1 hword
    · cases hneither.loggedIn.symm.trans h

/-- An account that is opened by a pair without a colon in its username has that name and that password. -/
private theorem hasAccount_of_presents {request : UInt32} {username bytes : Bytes} {socketFd : Nat}
    (h : Presents request username password bytes) (hcolon : colon ∉ username)
    (hnext : s.next (.recv socketFd bytes) = some t) (hby : loggedInBy (.recv socketFd bytes) t = some name) :
    name.bytes = username ∧ HasAccount t.world.mem.users username password := by
  obtain ⟨received, claimed, hdec, hname, hpassword⟩ := (asTyped_iff h).2 hcolon
  obtain ⟨_, _, received', heq, hdec', haccount⟩ := hasAccount_of_login (ServerState.turn hnext) hby
  cases heq
  rw [hdec] at hdec'
  cases hdec'
  rw [hname, hpassword] at haccount
  exact ⟨hname, haccount⟩

end Accounts

/-- Credentials arrive as typed exactly when the username has no colon.  A username with a colon is not only read as
another one: the server cannot tell its password from another that the client takes.  Without colons, two pairs that open
the same account, at any two times of a run, are the same pair. -/
theorem credentials_as_typed {request : UInt32} {username password bytes : Bytes}
    (h : Presents request username password bytes) :
    (AsTyped bytes username password ↔ colon ∉ username) ∧
    (colon ∈ username → ∃ password' bytes', password' ≠ password ∧ Presents request username password' bytes' ∧
      decode (recvBuffer bytes') = decode (recvBuffer bytes)) ∧
    (colon ∉ username → ∀ request' username' password' bytes', Presents request' username' password' bytes' →
      colon ∉ username' → ∀ (s t s' t' : ServerState) (socketFd socketFd' : Nat) (name : CStr maxName),
        s.next (.recv socketFd bytes) = some t → Later t s' → s'.next (.recv socketFd' bytes') = some t' →
        loggedInBy (.recv socketFd bytes) t = some name → loggedInBy (.recv socketFd' bytes') t' = some name →
        username = username' ∧ password = password') := by
  refine ⟨asTyped_iff h, exists_same_reading h, ?_⟩
  intro hcolon request' username' password' bytes' h' hcolon' s t s' t' _ _ name hnext hlater hnext' hby hby'
  obtain ⟨hname, haccount⟩ := hasAccount_of_presents h hcolon hnext hby
  obtain ⟨hname', haccount'⟩ := hasAccount_of_presents h' hcolon' hnext' hby'
  obtain rfl : username = username' := hname.symm.trans hname'
  exact ⟨rfl, ((haccount.later hlater).turn (ServerState.turn hnext')).unique haccount'⟩

/-- `/create ann p:w`: a colon in the password does no harm. -/
theorem credentials_as_typed_ann : AsTyped (ascii "13:3:ann:p:w") (ascii "ann") (ascii "p:w") := by
  have hpresents : Presents MsgType.create (ascii "ann") (ascii "p:w") (ascii "13:3:ann:p:w") :=
    presents_iff.2 ⟨⟨_, .create⟩, by decide, by decide, ⟨ascii "ann", by decide, by decide⟩,
      ⟨ascii "p:w", by decide, by decide⟩, rfl, rfl, by decide, by decide⟩
  exact (credentials_as_typed hpresents).1.2 (by decide)

/-- `/create a:b pw` and `/login a b:` open the same account. -/
theorem credentials_as_typed_fails :
    Presents MsgType.create (ascii "a:b") (ascii "pw") (ascii "13:2:a:b:pw") ∧
    Presents MsgType.login (ascii "a") (ascii "b:") (ascii "0:2:a:b:") ∧
    ¬ AsTyped (ascii "13:2:a:b:pw") (ascii "a:b") (ascii "pw") ∧
    ∃ s t name, afterEvents [.accept 3 ⟨[], by decide, by decide⟩, .recv 3 (ascii "13:2:a:b:pw")] = some s ∧
      loggedInBy (.recv 3 (ascii "13:2:a:b:pw")) s = some name ∧
      afterEvents [.accept 3 ⟨[], by decide, by decide⟩, .recv 3 (ascii "13:2:a:b:pw"), .disconnect 3,
        .accept 4 ⟨[], by decide, by decide⟩, .recv 4 (ascii "0:2:a:b:")] = some t ∧
      loggedInBy (.recv 4 (ascii "0:2:a:b:")) t = some name := by
  have hpair : Presents MsgType.create (ascii "a:b") (ascii "pw") (ascii "13:2:a:b:pw") :=
    presents_iff.2 ⟨⟨_, .create⟩, by decide, by decide, ⟨ascii "a:b", by decide, by decide⟩,
      ⟨ascii "pw", by decide, by decide⟩, rfl, rfl, by decide, by decide⟩
  have hother : Presents MsgType.login (ascii "a") (ascii "b:") (ascii "0:2:a:b:") :=
    presents_iff.2 ⟨⟨_, .login⟩, by decide, by decide, ⟨ascii "a", by decide, by decide⟩,
      ⟨ascii "b:", by decide, by decide⟩, rfl, rfl, by decide, by decide⟩
  refine ⟨hpair, hother, fun htyped => (asTyped_iff hpair).1 htyped (by decide), ?_⟩
  let before : List Event := [.accept 3 ⟨[], by decide, by decide⟩, .recv 3 (ascii "13:2:a:b:pw")]
  let after : List Event := [.accept 3 ⟨[], by decide, by decide⟩, .recv 3 (ascii "13:2:a:b:pw"), .disconnect 3,
    .accept 4 ⟨[], by decide, by decide⟩, .recv 4 (ascii "0:2:a:b:")]
  obtain ⟨s, hs⟩ : ∃ s, afterEvents before = some s := Option.isSome_iff_exists.1 (by decide)
  obtain ⟨t, ht⟩ : ∃ t, afterEvents after = some t := Option.isSome_iff_exists.1 (by decide)
  exact ⟨s, t, ⟨ascii "a", by decide, by decide⟩, hs, of_afterEvents (f := loggedInBy _) hs (by decide), ht,
    of_afterEvents (f := loggedInBy _) ht (by decide)⟩

end Conferencing
