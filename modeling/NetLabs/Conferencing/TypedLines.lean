import NetLabs.Conferencing.Link

/-!
# Lines that fit

`main` copies the words of a line into `input[5][50]`, and sends a chat line as a message of `bytes_read` data bytes.
Neither is checked.  `strtok` and the loop around it are described by the `words` of the line (`strtok_words`,
`readTokens_eq`); a line is handled inside all buffers exactly when it `Fits` (`typed_line_iff`).
-/

namespace Conferencing

open CText

/-! ### Words -/

/-- The words of a text: what stands between its delimiters. -/
def words (s : Bytes) : List Bytes := (s.splitOnP isDelimiter).filter fun w => w ≠ []

section Words

variable {b : Byte} {s w token scanned rest : Bytes}

private theorem words_nil : words [] = [] := rfl

private theorem words_cons (hb : isDelimiter b = true) (s : Bytes) : words (b :: s) = words s := by
  rw [words, List.splitOnP_cons_eq_if_modifyHead, if_pos hb]
  rfl

theorem words_append (hne : w ≠ []) (hw : ∀ b ∈ w, isDelimiter b = false) (hb : isDelimiter b = true) (s : Bytes) :
    words (w ++ b :: s) = w :: words s := by
  rw [words, List.splitOnP_append_cons_of_forall_mem hw b hb, List.filter_cons_of_pos (by simpa using hne), words]

private theorem words_singleton (hne : w ≠ []) (hw : ∀ b ∈ w, isDelimiter b = false) : words w = [w] := by
  rw [words, List.splitOnP_eq_singleton hw, List.filter_cons_of_pos (by simpa using hne), List.filter_nil]

private theorem words_dropWhile (s : Bytes) : words (s.dropWhile isDelimiter) = words s := by
  induction s with
  | nil => rfl
  | cons b s ih =>
    rw [List.dropWhile_cons]
    split
    · rename_i hb
      rw [ih, words_cons hb]
    · rfl

/-- A word consists of bytes of the text that are no delimiters. -/
theorem mem_of_mem_words (hw : w ∈ words s) (hb : b ∈ w) : b ∈ s ∧ isDelimiter b = false := by
  induction s generalizing w with
  | nil => cases hw
  | cons x s ih =>
    have hcons : b ∈ s ∧ isDelimiter b = false → b ∈ x :: s ∧ isDelimiter b = false :=
      And.imp_left (List.mem_cons_of_mem x)
    rw [words, List.splitOnP_cons_eq_if_modifyHead] at hw
    split at hw
    · exact hcons (ih (List.mem_filter.2 (by simpa using hw)) hb)
    · rename_i hx
      obtain ⟨v, tail, hsplit⟩ := List.exists_cons_of_ne_nil (List.splitOnP_ne_nil isDelimiter s)
      rw [hsplit, List.modifyHead_cons] at hw
      have hmem := (List.mem_filter.1 hw).1
      have hother : ∀ w ∈ v :: tail, b ∈ w → b ∈ s ∧ isDelimiter b = false := fun w hw hb =>
        ih (List.mem_filter.2 ⟨by rw [hsplit]; exact hw, by simpa using List.ne_nil_of_mem hb⟩) hb
      rcases List.mem_cons.1 hmem with rfl | hmem
      · rcases List.mem_cons.1 hb with rfl | hb
        · exact ⟨List.mem_cons_self, by simpa using hx⟩
        · exact hcons (hother v List.mem_cons_self hb)
      · exact hcons (hother w (List.mem_cons_of_mem _ hmem) hb)

/-- `strtok` finds no token in a text without words. -/
theorem strtok_none (h : strtok s = none) : words s = [] := by
  unfold strtok at h
  dsimp only at h
  split at h
  · rename_i hnil
    rw [← words_dropWhile, hnil, words_nil]
  · split at h <;> cases h

/-- The token is the first word, and what is left has the other words; the memory keeps its size. -/
theorem strtok_words (h : strtok s = some (token, scanned, rest)) :
    words s = token :: words rest ∧ scanned.length + rest.length = s.length := by
  obtain ⟨hne, hw⟩ := strtok_token h
  unfold strtok at h
  dsimp only at h
  split at h
  · cases h
  · have hlead : (s.takeWhile isDelimiter).length + (s.dropWhile isDelimiter).length = s.length := by
      rw [← List.length_append, List.takeWhile_append_dropWhile]
    have hword : (s.dropWhile isDelimiter).takeWhile (fun b => !isDelimiter b) ++
        (s.dropWhile isDelimiter).dropWhile (fun b => !isDelimiter b) = s.dropWhile isDelimiter :=
      List.takeWhile_append_dropWhile
    have hlen := congrArg List.length hword
    rw [List.length_append] at hlen
    split at h
    · rename_i hend
      cases h
      rw [hend, List.append_nil] at hword
      rw [hend, List.length_nil] at hlen
      refine ⟨?_, by simp only [List.length_append, List.length_nil]; omega⟩
      rw [← words_dropWhile, words_nil, ← words_singleton hne hw]
      exact congrArg words hword.symm
    · rename_i b tail hend
      cases h
      rw [hend] at hword
      rw [hend, List.length_cons] at hlen
      have hb : isDelimiter b = true := by
        have := List.head_dropWhile_not (fun b => !isDelimiter b) (l := s.dropWhile isDelimiter)
          (by rw [hend]; exact List.cons_ne_nil _ _)
        simpa only [hend, List.head_cons, Bool.not_eq_false'] using this
      refine ⟨?_, by simp only [List.length_append, List.length_singleton]; omega⟩
      rw [← words_dropWhile, ← words_append hne hw hb]
      exact congrArg words hword.symm

end Words

/-! ### The slots of `input` -/

section Slots

variable {s memory : Bytes} {slots : Nat} {tokens : List Bytes} {more all : Bool}

/-- The words that are copied: all of a command, the first one of any other line. -/
def copied (all : Bool) (slots : Nat) (s : Bytes) : List Bytes := (words s).take (if all then slots else min slots 1)

/-- The loop succeeds when the words it copies fit their slots. -/
private theorem readTokens_eq (h : ∀ w ∈ copied all slots s, w.length < inputSize) :
    ∃ more memory, readTokens all slots s = some (copied all slots s, more, memory) ∧ memory.length = s.length ∧
      (all = true → more = decide (slots < (words s).length)) := by
  induction slots generalizing s with
  | zero =>
    have hnone : copied all 0 s = [] := by simp [copied]
    rw [hnone]
    cases hstr : strtok s with
    | none => exact ⟨false, s, by rw [readTokens, hstr], rfl, by simp [strtok_none hstr]⟩
    | some p =>
      obtain ⟨token, scanned, rest⟩ := p
      obtain ⟨hwords, hlen⟩ := strtok_words hstr
      exact ⟨true, scanned ++ rest, by rw [readTokens, hstr], by rw [List.length_append]; exact hlen, by simp [hwords]⟩
  | succ slots ih =>
    cases hstr : strtok s with
    | none =>
      have hnone : copied all (slots + 1) s = [] := by simp [copied, strtok_none hstr]
      rw [hnone]
      exact ⟨false, s, by rw [readTokens, hstr], rfl, by simp [strtok_none hstr]⟩
    | some p =>
      obtain ⟨token, scanned, rest⟩ := p
      obtain ⟨hwords, hlen⟩ := strtok_words hstr
      cases all with
      | false =>
        have hone : copied false (slots + 1) s = [token] := by simp [copied, hwords]
        rw [hone] at h ⊢
        refine ⟨false, scanned ++ rest, ?_, by rw [List.length_append]; exact hlen, by simp⟩
        rw [readTokens, hstr]
        simp [h token (by simp)]
      | true =>
        have hcons : copied true (slots + 1) s = token :: copied true slots rest := by simp [copied, hwords]
        rw [hcons] at h ⊢
        obtain ⟨more, memory, hread, hmemory, hmore⟩ := ih fun w hw => h w (List.mem_cons_of_mem _ hw)
        refine ⟨more, scanned ++ memory, ?_, by rw [List.length_append, hmemory]; exact hlen, fun _ => ?_⟩
        · rw [readTokens, hstr]
          simp [h token List.mem_cons_self, hread]
        · rw [hmore rfl, hwords, List.length_cons]
          simp

/-- A word that is copied fits its slot. -/
private theorem fits_of_readTokens (h : readTokens all slots s = some (tokens, more, memory)) :
    ∀ w ∈ copied all slots s, w.length < inputSize := by
  induction slots generalizing s tokens more memory with
  | zero => simp [copied]
  | succ slots ih =>
    unfold readTokens at h
    cases hstr : strtok s with
    | none => simp [copied, strtok_none hstr]
    | some p =>
      obtain ⟨token, scanned, rest⟩ := p
      obtain ⟨hwords, -⟩ := strtok_words hstr
      rw [hstr] at h
      dsimp only at h
      split at h
      · rename_i hfit
        cases all with
        | false =>
          simp only [copied, hwords, Bool.false_eq_true, ↓reduceIte, Nat.min_eq_right (Nat.le_add_left 1 slots),
            List.take_succ_cons, List.take_zero, List.mem_singleton]
          rintro w rfl
          exact hfit
        | true =>
          rw [if_pos rfl] at h
          obtain ⟨⟨tokens', more', memory'⟩, hread, -⟩ := Option.map_eq_some_iff.1 h
          have hcons : copied true (slots + 1) s = token :: copied true slots rest := by simp [copied, hwords]
          rw [hcons]
          intro w hw
          rcases List.mem_cons.1 hw with rfl | hw
          · exact hfit
          · exact ih hread w hw
      · cases h

end Slots

/-! ### Lines -/

section Lines

variable {c c' : Client} {r : Reaction} {locals : Locals} {line : Bytes} {t : TypedLine}

/-- The words of a line that are copied into `input`. -/
def copiedWords (line : Bytes) : List Bytes := copied (line.head? = some 47) loginParameterSize (cstr line)

/-- The first word does not start with a slash. -/
def Chats (line : Bytes) : Prop := ((words (cstr line)).headD []).head? ≠ some 47

/-- The words that are copied fit their slots, and a chat line fits the data of a message. -/
def Fits (line : Bytes) : Prop :=
  line = [] ∨ line.head? = some 10 ∨
    (∀ w ∈ copiedWords line, w.length < inputSize) ∧ (Chats line → line.length % 2 ^ 32 ≤ maxData)

/-- What a line that has been taken apart looks like. -/
private theorem splitLine_some (h : splitLine line = some t) :
    t.tokens = copiedWords line ∧ (∀ w ∈ copiedWords line, w.length < inputSize) ∧
      t.memory.length = line.length + 1 := by
  obtain ⟨⟨tokens, more, memory⟩, hread, h⟩ := Option.bind_eq_some_iff.1 h
  have hfits := fits_of_readTokens hread
  obtain ⟨more', memory', hread', hmemory, -⟩ := readTokens_eq hfits
  rw [hread'] at hread
  cases hread
  cases h
  refine ⟨rfl, hfits, ?_⟩
  have hle : (cstr line).length ≤ line.length := (List.takeWhile_sublist _).length_le
  simp only [List.length_append, List.length_drop, List.length_singleton, hmemory]
  omega

private theorem splitLine_eq (h : ∀ w ∈ copiedWords line, w.length < inputSize) : ∃ t, splitLine line = some t := by
  obtain ⟨more, memory, hread, -, -⟩ := readTokens_eq h
  exact ⟨_, Option.bind_eq_some_iff.2 ⟨_, hread, rfl⟩⟩

/-- At most five slots are written. -/
private theorem length_copiedWords_le (line : Bytes) : (copiedWords line).length ≤ loginParameterSize := by
  rw [copiedWords, copied, List.length_take]
  split <;> omega

/-- The command of a line is that of its first word. -/
private theorem input_zero (h : splitLine line = some t) : t.input 0 = (words (cstr line)).headD [] := by
  have hfirst : ∀ l : List Bytes, ∀ k, (l.take (k + 1)).getD 0 [] = l.headD [] := fun l k => by cases l <;> rfl
  rw [TypedLine.input, (splitLine_some h).1, copiedWords, copied]
  split <;> exact hfirst _ _

private theorem checkCommands_message_iff (command : Bytes) :
    checkCommands command = .message ↔ command.head? ≠ some 47 := by
  constructor
  · intro hcode hslash
    revert hcode
    rw [checkCommands, if_neg (not_not.2 hslash)]
    -- none of the branches for a slash is the chat message
    repeat refine iteInduction (motive := (· ≠ Command.message)) (fun _ => Command.noConfusion) fun _ => ?_
    exact Command.noConfusion
  · intro h
    rw [checkCommands, if_pos h]

private theorem exists_bind {α β : Type} {x : Option α} {a : α} {f : α → Option β} (hx : x = some a)
    (hf : ∃ r, f a = some r) : ∃ r, x.bind f = some r := by
  rw [hx]
  exact hf

/-- The words hold no NUL, and they fit a message. -/
private theorem ask_input (h : splitLine line = some t) (c : Client) {type : UInt32} (htype : type ≠ MsgType.message)
    (i : Nat) :
    ∃ r, c.ask type (t.input i) = some r := by
  obtain ⟨htokens, hfits, -⟩ := splitLine_some h
  have hword : t.input i = [] ∨ t.input i ∈ copiedWords line := by
    rw [TypedLine.input, htokens, List.getD_eq_getElem?_getD]
    cases hget : (copiedWords line)[i]? with
    | none => exact Or.inl rfl
    | some w => exact Or.inr (List.mem_of_getElem? hget)
  have hnul : (0 : Byte) ∉ t.input i := by
    rcases hword with hnil | hmem
    · rw [hnil]
      exact List.not_mem_nil
    · intro h0
      exact nulFree_cstr line (mem_of_mem_words (List.mem_of_mem_take hmem) h0).1
  have hlen : (t.input i).length < maxData := by
    rcases hword with hnil | hmem
    · rw [hnil]
      decide
    · exact Nat.lt_trans (hfits _ hmem) (by decide)
  obtain ⟨data, hdata⟩ : ∃ data, CStr.ofBytes? maxData (t.input i) = some data := ⟨_, CStr.ofBytes?_isSome hnul hlen⟩
  rw [Client.ask, hdata]
  exact exists_bind rfl (exists_bind (c.request_eq htype (some data)) ⟨_, rfl⟩)

/-- The requests without a text always go through. -/
private theorem leaveSession_eq (c : Client) : ∃ p, c.leaveSession = some p := by
  unfold Client.leaveSession
  split
  · exact ⟨_, rfl⟩
  · exact ⟨_, by rw [c.request_eq (show MsgType.leaveSess ≠ MsgType.message by decide)]; rfl⟩

private theorem logout_eq (c : Client) : ∃ p, c.logout = some p := by
  obtain ⟨⟨c', leave⟩, hleave⟩ := leaveSession_eq c
  exact exists_bind hleave (exists_bind (c'.request_eq (show MsgType.exit ≠ MsgType.message by decide) none) ⟨_, rfl⟩)

/-- A chat line is handled exactly when its size, as an `unsigned int`, is at most that of the data of a message. -/
private theorem chat_iff (c : Client) {bytesRead : Nat} {lineBuffer : Bytes} (hlen : bytesRead ≤ lineBuffer.length) :
    (∃ r, c.chat locals bytesRead lineBuffer = some r) ↔ bytesRead % 2 ^ 32 ≤ maxData := by
  have hnat : (UInt32.ofNat bytesRead).toNat = bytesRead % 2 ^ 32 := UInt32.toNat_ofNat'
  constructor
  · rintro ⟨r, h⟩
    rw [← hnat]
    exact (Client.bound_of_chat h).1
  · intro hsize
    obtain ⟨message, hfill, hchat⟩ := fillMessage_chat locals.message (n := UInt32.ofNat bytesRead) (by omega) c.name
      (show (UInt32.ofNat bytesRead).toNat ≤ lineBuffer.length by rw [hnat]; exact (Nat.mod_le _ _).trans hlen)
    obtain ⟨out, count, hprint, -⟩ := hchat.messageToString locals.sendingBuffer (by decide)
    exact exists_bind hfill (exists_bind hprint ⟨_, rfl⟩)

private theorem nothing_eq (c : Client) : ∃ r, c.nothing = some r := ⟨_, rfl⟩

private theorem askSession_eq (h : splitLine line = some t) (c : Client) {type : UInt32}
    (htype : type ≠ MsgType.message) :
    ∃ r, c.askSession type t = some r := by
  unfold Client.askSession
  split
  · exact nothing_eq c
  split
  · exact nothing_eq c
  split
  · exact nothing_eq c
  · exact ask_input h c htype 1

private theorem askAbout_eq (h : splitLine line = some t) (c : Client) {type : UInt32}
    (htype : type ≠ MsgType.message) :
    ∃ r, c.askAbout type t = some r := by
  unfold Client.askAbout
  split
  · exact nothing_eq c
  split
  · exact nothing_eq c
  split
  · exact nothing_eq c
  split
  · exact nothing_eq c
  split
  · exact nothing_eq c
  · exact ask_input h c htype 1

private theorem askAccess_eq (c : Client) (type : UInt32) (t : TypedLine) : ∃ r, c.askAccess type t = some r := by
  unfold Client.askAccess
  split
  · exact nothing_eq c
  split
  · exact nothing_eq c
  · exact ⟨_, rfl⟩

/-- Every command but a chat message is handled. -/
private theorem perform_eq (h : splitLine line = some t) (c : Client) (locals : Locals) (bytesRead : Nat)
    {code : Command}
    (hcode : code ≠ .message) : ∃ r, c.perform locals bytesRead t code = some r := by
  cases code with
  | message => exact absurd rfl hcode
  | logout =>
    simp only [Client.perform]
    split
    · exact nothing_eq c
    · obtain ⟨p, hp⟩ := logout_eq c
      exact ⟨_, by rw [hp]; rfl⟩
  | list =>
    simp only [Client.perform]
    split
    · exact nothing_eq c
    · exact ⟨_, by rw [c.request_eq (show MsgType.query ≠ MsgType.message by decide)]; rfl⟩
  | userlist =>
    simp only [Client.perform]
    split
    · exact nothing_eq c
    · exact ask_input h c (by decide) 1
  | leaveSession =>
    simp only [Client.perform]
    split
    · exact nothing_eq c
    · obtain ⟨p, hp⟩ := leaveSession_eq c
      exact ⟨_, by rw [hp]; rfl⟩
  | joinSession => exact askSession_eq h c (by decide)
  | createSession => exact askSession_eq h c (by decide)
  | promote => exact askAbout_eq h c (by decide)
  | kick => exact askAbout_eq h c (by decide)
  | _ => exact nothing_eq c

/-- A line that has been taken apart, typed while the client is in a session: only a chat message can go wrong. -/
private theorem enter_split (hserver : c.serverConnectionStatus = .online) (hsession : c.sessionStatus = .online)
    (hline : ¬ (line = [] ∨ line.head? = some 10)) (hsplit : splitLine line = some t) :
    (∃ r, c.enter locals line = some r) ↔ (Chats line → line.length % 2 ^ 32 ≤ maxData) := by
  have hchats : Chats line ↔ checkCommands (t.input 0) = .message := by
    rw [checkCommands_message_iff, input_zero hsplit, Chats]
  rw [hchats, Client.enter, if_neg hline, hsplit, Option.bind_eq_bind, Option.bind_some]
  cases hcode : checkCommands (t.input 0) with
  | message =>
    have hmemory : line.length ≤ t.memory.length := by
      rw [(splitLine_some hsplit).2.2]
      omega
    simp only [hserver, hsession, reduceCtorEq, ↓reduceIte, Client.perform]
    rw [chat_iff c hmemory]
    exact ⟨fun hsize _ => hsize, fun hsize => hsize trivial⟩
  | invalid => exact iff_of_true (nothing_eq c) fun h => Command.noConfusion h
  | quit =>
    refine iff_of_true ?_ fun h => Command.noConfusion h
    simp only [hserver, ↓reduceIte]
    split
    · exact nothing_eq c
    · obtain ⟨p, hp⟩ := logout_eq c
      exact ⟨_, by rw [hp]; rfl⟩
  | login => exact iff_of_true (askAccess_eq c _ t) fun h => Command.noConfusion h
  | create => exact iff_of_true (askAccess_eq c _ t) fun h => Command.noConfusion h
  | _ =>
    refine iff_of_true ?_ fun h => Command.noConfusion h
    simp only [hserver, reduceCtorEq, ↓reduceIte]
    exact perform_eq hsplit c locals line.length Command.noConfusion

/-- In a session a typed line is handled inside all buffers exactly when it fits; and whenever it has been taken apart,
at most five slots of `input` have been written, each with a word that fits. -/
theorem typed_line_iff (c : Client) (hserver : c.serverConnectionStatus = .online) (hsession : c.sessionStatus = .online)
    (locals : Locals) (line : Bytes) :
    ((∃ c' r, c.enter locals line = some (c', r)) ↔ Fits line) ∧
      ∀ t, splitLine line = some t →
        t.tokens.length ≤ loginParameterSize ∧ ∀ token ∈ t.tokens, token.length < inputSize := by
  constructor
  · rw [← Prod.exists', Fits, ← or_assoc]
    by_cases hline : line = [] ∨ line.head? = some 10
    · refine iff_of_true ?_ (Or.inl hline)
      rw [Client.enter, if_pos hline]
      exact nothing_eq c
    · rw [or_iff_right hline]
      by_cases hfits : ∀ w ∈ copiedWords line, w.length < inputSize
      · obtain ⟨t, hsplit⟩ := splitLine_eq hfits
        rw [enter_split hserver hsession hline hsplit, and_iff_right hfits]
      · refine iff_of_false ?_ fun h => hfits h.1
        rintro ⟨r, h⟩
        rw [Client.enter, if_neg hline] at h
        obtain ⟨t, hsplit, -⟩ := Option.bind_eq_some_iff.1 h
        exact hfits (splitLine_some hsplit).2.1
  · intro t hsplit
    obtain ⟨htokens, hfits, -⟩ := splitLine_some hsplit
    rw [htokens]
    exact ⟨length_copiedWords_le line, hfits⟩

end Lines

/-- A client with open flags: connected and in a session. -/
def chatting : Client := ⟨⟨ascii "ann", by decide, by decide⟩, .online, .online, .online, .user⟩

theorem typed_line_iff_hello : ∃ c' r, chatting.enter ⟨.zero, .zero _⟩ (ascii "hello all\n") = some (c', r) := by
  refine (typed_line_iff chatting rfl rfl ⟨.zero, .zero _⟩ (ascii "hello all\n")).1.2 (Or.inr (Or.inr ⟨?_, fun _ => ?_⟩))
  · decide
  · decide

/-- A word of fifty letters leaves no room for its NUL. -/
theorem typed_line_fails : ¬ ∀ c : Client, c.serverConnectionStatus = .online → c.sessionStatus = .online →
    ∀ locals line, ∃ c' r, c.enter locals line = some (c', r) := by
  intro h
  obtain ⟨c', r, h⟩ := h chatting rfl rfl ⟨.zero, .zero _⟩ (List.replicate 50 120 ++ [10])
  have hline : ¬ (List.replicate 50 120 ++ [10] = ([] : Bytes) ∨ (List.replicate 50 120 ++ [10] : Bytes).head? = some 10) := by
    decide
  rw [Client.enter, if_neg hline] at h
  obtain ⟨t, hsplit, -⟩ := Option.bind_eq_some_iff.1 h
  have hword : List.replicate 50 120 ∈ copiedWords (List.replicate 50 120 ++ [10]) := by decide
  exact absurd ((splitLine_some hsplit).2.1 _ hword) (by decide)

/-! ### Lines that connect -/

/-- The two commands that open a connection, with the request that is sent for them. -/
inductive AccessCommand : Bytes → UInt32 → Prop
  | login : AccessCommand (ascii "/login") MsgType.login
  | create : AccessCommand (ascii "/create") MsgType.create

/-- A `/login` or `/create` with four parameters. -/
structure AccessLine (line : Bytes) (request : UInt32) (parameters : List Bytes) : Prop where
  slash : line.head? = some 47
  words_eq : ∃ command, AccessCommand command request ∧ words (cstr line) = command :: parameters
  count : parameters.length = 4
  fits : ∀ w ∈ parameters, w.length < inputSize

section Access

variable {c c' : Client} {r : Reaction} {locals : Locals} {line : Bytes} {t : TypedLine} {request : UInt32}
  {parameters : List Bytes}

private theorem checkCommands_login {command : Bytes} (h : checkCommands command = .login) :
    command = ascii "/login" := by
  revert h
  unfold checkCommands
  refine iteInduction (motive := (· = Command.login → _)) (fun _ => Command.noConfusion) fun _ => ?_
  refine iteInduction (motive := (· = Command.login → _)) (fun h _ => h) fun _ => ?_
  repeat refine iteInduction (motive := (· = Command.login → _)) (fun _ => Command.noConfusion) fun _ => ?_
  exact Command.noConfusion

private theorem checkCommands_create {command : Bytes} (h : checkCommands command = .create) :
    command = ascii "/create" := by
  revert h
  unfold checkCommands
  iterate 8 refine iteInduction (motive := (· = Command.create → _)) (fun _ => Command.noConfusion) fun _ => ?_
  refine iteInduction (motive := (· = Command.create → _)) (fun h _ => h) fun _ => ?_
  repeat refine iteInduction (motive := (· = Command.create → _)) (fun _ => Command.noConfusion) fun _ => ?_
  exact Command.noConfusion

/-- The commands that need a connection open none. -/
private theorem sends_of_ask {type : UInt32} {text : Bytes} (h : c.ask type text = some (c', r)) :
    ∃ messages, r = .send messages := by
  obtain ⟨data, -, h⟩ := Option.bind_eq_some_iff.1 h
  obtain ⟨bytes, -, h⟩ := Option.bind_eq_some_iff.1 h
  cases h
  exact ⟨_, rfl⟩

private theorem sends_of_nothing (h : c.nothing = some (c', r)) : ∃ messages, r = .send messages := by
  cases h
  exact ⟨_, rfl⟩

private theorem sends_of_map {q : Option (Client × List Bytes)}
    (h : (q.map fun (c, messages) => (c, Reaction.send messages)) = some (c', r)) : ∃ messages, r = .send messages := by
  obtain ⟨⟨c₁, messages⟩, -, h⟩ := Option.map_eq_some_iff.1 h
  cases h
  exact ⟨_, rfl⟩

private theorem sends_of_askSession {type : UInt32} (h : c.askSession type t = some (c', r)) :
    ∃ messages, r = .send messages := by
  unfold Client.askSession at h
  split at h
  · exact sends_of_nothing h
  split at h
  · exact sends_of_nothing h
  split at h
  · exact sends_of_nothing h
  · exact sends_of_ask h

private theorem sends_of_askAbout {type : UInt32} (h : c.askAbout type t = some (c', r)) :
    ∃ messages, r = .send messages := by
  unfold Client.askAbout at h
  split at h
  · exact sends_of_nothing h
  split at h
  · exact sends_of_nothing h
  split at h
  · exact sends_of_nothing h
  split at h
  · exact sends_of_nothing h
  split at h
  · exact sends_of_nothing h
  · exact sends_of_ask h

private theorem sends_of_perform {bytesRead : Nat} {code : Command}
    (h : c.perform locals bytesRead t code = some (c', r)) :
    ∃ messages, r = .send messages := by
  cases code with
  | message =>
    simp only [Client.perform] at h
    split at h
    · exact sends_of_nothing h
    · obtain ⟨message, -, h⟩ := Option.bind_eq_some_iff.1 h
      obtain ⟨⟨buffer, count⟩, -, h⟩ := Option.bind_eq_some_iff.1 h
      cases h
      exact ⟨_, rfl⟩
  | logout =>
    simp only [Client.perform] at h
    split at h
    · exact sends_of_nothing h
    · exact sends_of_map h
  | leaveSession =>
    simp only [Client.perform] at h
    split at h
    · exact sends_of_nothing h
    · exact sends_of_map h
  | list =>
    simp only [Client.perform] at h
    split at h
    · exact sends_of_nothing h
    · obtain ⟨bytes, -, h⟩ := Option.map_eq_some_iff.1 h
      cases h
      exact ⟨_, rfl⟩
  | userlist =>
    simp only [Client.perform] at h
    split at h
    · exact sends_of_nothing h
    · exact sends_of_ask h
  | joinSession => exact sends_of_askSession h
  | createSession => exact sends_of_askSession h
  | promote => exact sends_of_askAbout h
  | kick => exact sends_of_askAbout h
  | _ => exact sends_of_nothing h

/-- `index` counts the words, up to one more than there are slots. -/
private theorem index_eq (h : splitLine line = some t) (hslash : line.head? = some 47) :
    t.index = loginParameterSize ↔ (words (cstr line)).length = loginParameterSize := by
  have hfits := (splitLine_some h).2.1
  obtain ⟨more, memory, hread, -, hmore⟩ := readTokens_eq hfits
  obtain ⟨p, hread', h⟩ := Option.bind_eq_some_iff.1 h
  obtain rfl := Option.some.inj (hread.symm.trans hread')
  cases h
  have hmore' := hmore (by simp [hslash])
  simp only [hslash, decide_true, ↓reduceIte, copied, List.length_take]
  rw [hmore']
  by_cases hlt : loginParameterSize < (words (cstr line)).length
  · simp only [hlt, decide_true, ↓reduceIte]
    omega
  · simp only [hlt, decide_false, Bool.false_eq_true, ↓reduceIte]
    omega

private theorem request_of_askAccess {type : UInt32} (h : c.askAccess type t = some (c', .connect request parameters)) :
    request = type := by
  unfold Client.askAccess at h
  split at h
  · cases h
  split at h
  · cases h
  · cases h
    rfl

/-- A command with no word too many is copied whole. -/
private theorem copiedWords_eq (hslash : line.head? = some 47)
    (hlength : (words (cstr line)).length = loginParameterSize) :
    copiedWords line = words (cstr line) := by
  simp only [copiedWords, copied, hslash, decide_true, ↓reduceIte]
  exact List.take_of_length_le (Nat.le_of_eq hlength)

/-- A `/login` or `/create` that goes through. -/
private theorem accessLine_of_askAccess {command : Bytes} (hsplit : splitLine line = some t)
    (hcommand : AccessCommand command request) (hfirst : t.input 0 = command)
    (h : c.askAccess request t = some (c', .connect request parameters)) :
    c' = c ∧ c.verifiedAccess = .offline ∧ AccessLine line request parameters := by
  unfold Client.askAccess at h
  split at h
  · cases h
  rename_i hindex
  split at h
  · cases h
  rename_i hverified
  cases h
  obtain ⟨htokens, hfits, -⟩ := splitLine_some hsplit
  -- any other line has been taken apart only up to its first word
  have hslash : line.head? = some 47 := by
    by_contra hno
    obtain ⟨p, -, hsplit⟩ := Option.bind_eq_some_iff.1 hsplit
    cases hsplit
    exact hindex (by simp [hno])
  have hlength := (index_eq hsplit hslash).1 (not_not.1 hindex)
  have hall := copiedWords_eq hslash hlength
  rw [input_zero hsplit] at hfirst
  rw [hall] at hfits htokens
  obtain ⟨first, parameters, hwords⟩ : ∃ first parameters, words (cstr line) = first :: parameters :=
    List.exists_cons_of_ne_nil fun hnil => by simp [hnil] at hlength
  rw [hwords] at hfirst hlength hfits
  obtain rfl : first = command := hfirst
  refine ⟨rfl, Status.ne_online.1 hverified, hslash, ⟨first, hcommand, ?_⟩, ?_, ?_⟩
  · rw [htokens, hwords, List.drop_succ_cons, List.drop_zero]
  · rw [htokens, hwords, List.drop_succ_cons, List.drop_zero]
    exact Nat.succ_injective hlength
  · rw [htokens, hwords, List.drop_succ_cons, List.drop_zero]
    exact fun w hw => hfits w (List.mem_cons_of_mem _ hw)

/-- A line opens a connection exactly when it is a `/login` or `/create` with four parameters, typed while no login is
in place. -/
theorem enter_connect_iff :
    c.enter locals line = some (c', .connect request parameters) ↔
      c' = c ∧ c.verifiedAccess = .offline ∧ AccessLine line request parameters := by
  constructor
  · intro h
    unfold Client.enter at h
    split at h
    · cases h
    obtain ⟨t, hsplit, h⟩ := Option.bind_eq_some_iff.1 h
    have hsends : ∀ code, (if c.serverConnectionStatus = .offline then c.nothing
        else c.perform locals line.length t code) ≠ some (c', .connect request parameters) := by
      intro code h
      obtain ⟨messages, h⟩ : ∃ messages, Reaction.connect request parameters = .send messages := by
        split at h
        · exact sends_of_nothing h
        · exact sends_of_perform h
      cases h
    cases hcode : checkCommands (t.input 0) with
    | login =>
      rw [hcode] at h
      obtain rfl : request = MsgType.login := request_of_askAccess h
      exact accessLine_of_askAccess hsplit .login (checkCommands_login hcode) h
    | create =>
      rw [hcode] at h
      obtain rfl : request = MsgType.create := request_of_askAccess h
      exact accessLine_of_askAccess hsplit .create (checkCommands_create hcode) h
    | invalid =>
      rw [hcode] at h
      cases h
    | quit =>
      simp only [hcode] at h
      split_ifs at h
      · cases h
      · obtain ⟨p, -, h⟩ := Option.map_eq_some_iff.1 h
        cases h
      · cases h
    | _ =>
      rw [hcode] at h
      exact absurd h (hsends _)
  · rintro ⟨rfl, hverified, hline⟩
    have hslash := hline.slash
    obtain ⟨command, hcommand, hwords⟩ := hline.words_eq
    have hstart : ¬ (line = [] ∨ line.head? = some 10) := by
      rw [not_or]
      exact ⟨fun hnil => by simp [hnil] at hslash, by simp [hslash]⟩
    have hlength : (words (cstr line)).length = loginParameterSize := by
      rw [hwords, List.length_cons, hline.count]
    have hall := copiedWords_eq hslash hlength
    have hfits : ∀ w ∈ copiedWords line, w.length < inputSize := by
      rw [hall, hwords]
      intro w hw
      rcases List.mem_cons.1 hw with rfl | hw
      · cases hcommand <;> decide
      · exact hline.fits w hw
    obtain ⟨t, hsplit⟩ := splitLine_eq hfits
    have hindex := (index_eq hsplit hslash).2 hlength
    have htokens : t.tokens.drop 1 = parameters := by
      rw [(splitLine_some hsplit).1, hall, hwords]
      rfl
    have hfirst : t.input 0 = command := by
      rw [input_zero hsplit, hwords]
      rfl
    have haccess : ∀ type, c'.askAccess type t = some (c', .connect type parameters) := by
      intro type
      rw [Client.askAccess, if_neg (not_not.2 hindex), if_neg (by rw [hverified]; decide), htokens]
    rw [Client.enter, if_neg hstart, hsplit, Option.bind_eq_bind, Option.bind_some, hfirst]
    cases hcommand with
    | login =>
      have hcode : checkCommands (ascii "/login") = .login := by decide
      rw [hcode]
      exact haccess MsgType.login
    | create =>
      have hcode : checkCommands (ascii "/create") = .create := by decide
      rw [hcode]
      exact haccess MsgType.create

end Access

/-! ### The parameters of a connection -/

/-- What can stand between two delimiters of a C string. -/
def Token (s : Bytes) : Prop := s ≠ [] ∧ ∀ b ∈ s, isDelimiter b = false ∧ b ≠ 0

instance (s : Bytes) : Decidable (Token s) :=
  have : Decidable (∀ b ∈ s, isDelimiter b = false ∧ b ≠ 0) := List.decidableBAll _ s
  inferInstanceAs (Decidable (s ≠ [] ∧ ∀ b ∈ s, isDelimiter b = false ∧ b ≠ 0))

theorem token_of_mem_words {s w : Bytes} (h : w ∈ words (cstr s)) : Token w := by
  refine ⟨by simpa using (List.mem_filter.1 h).2, fun b hb => ?_⟩
  obtain ⟨hmem, hdelimiter⟩ := mem_of_mem_words h hb
  refine ⟨hdelimiter, ?_⟩
  rintro rfl
  exact nulFree_cstr s hmem

section Requests

variable {request : UInt32} {username password bytes : Bytes} {line : Bytes} {parameters : List Bytes}

/-- What `login` and `user_registration` send: the request with the two parameters, when they are short enough. -/
theorem accessRequest_iff (hrequest : request ≠ MsgType.message) (hu : (0 : Byte) ∉ username) (hp : (0 : Byte) ∉ password) :
    accessRequest request username password = some [bytes] ↔
      ∃ (name : CStr maxName) (data : CStr maxData), name.bytes = username ∧ data.bytes = password ∧
        password.length < maxPasswordLength ∧ bytes = wireOf request name (some data) := by
  unfold accessRequest
  simp only [lengthValidate, decide_eq_false_iff_not]
  constructor
  · intro h
    split at h
    · cases h
    split at h
    · cases h
    rename_i hfits'
    obtain ⟨name, hname, h⟩ := Option.bind_eq_some_iff.1 h
    obtain ⟨data, hdata, h⟩ := Option.bind_eq_some_iff.1 h
    rw [fillAndSendMessage_eq hrequest] at h
    cases h
    exact ⟨name, data, CStr.ofBytes?_eq_some.1 hname, CStr.ofBytes?_eq_some.1 hdata, not_not.1 hfits', rfl⟩
  · rintro ⟨name, data, rfl, rfl, hfits, rfl⟩
    have hname : CStr.ofBytes? maxName name.bytes = some name := CStr.ofBytes?_eq_some.2 rfl
    have hdata : CStr.ofBytes? maxData data.bytes = some data := CStr.ofBytes?_eq_some.2 rfl
    rw [if_neg (not_not.2 name.fits), if_neg (not_not.2 hfits), hname, hdata, Option.bind_eq_bind, Option.bind_some,
      Option.bind_eq_bind, Option.bind_some, fillAndSendMessage_eq hrequest]
    rfl

theorem AccessCommand.request_ne {command : Bytes} (h : AccessCommand command request) : request ≠ MsgType.message := by
  cases h <;> decide

/-- A username or a password that is too long is refused before there is a connection. -/
theorem accessRequest_refused (h : ¬ (username.length < maxName ∧ password.length < maxPasswordLength)) :
    accessRequest request username password = some [] := by
  unfold accessRequest
  simp only [lengthValidate, decide_eq_false_iff_not]
  split
  · rfl
  · rename_i hu
    rw [if_pos fun hp => h ⟨not_not.1 hu, hp⟩]

theorem accessRequest_sent (hrequest : request ≠ MsgType.message) (hu : (0 : Byte) ∉ username)
    (hp : (0 : Byte) ∉ password) (h : username.length < maxName ∧ password.length < maxPasswordLength) :
    ∃ bytes, accessRequest request username password = some [bytes] :=
  ⟨_, (accessRequest_iff hrequest hu hp).2 ⟨⟨username, hu, h.1⟩, ⟨password, hp, Nat.lt_trans h.2 (by decide)⟩, rfl, rfl,
    h.2, rfl⟩⟩

/-- The parameters hold no NUL. -/
theorem AccessLine.nulFree (h : AccessLine line request parameters) (i : Nat) : (0 : Byte) ∉ parameters.getD i [] := by
  obtain ⟨command, -, hwords⟩ := h.words_eq
  rw [List.getD_eq_getElem?_getD]
  cases hget : parameters[i]? with
  | none => exact List.not_mem_nil
  | some w =>
    have hw : Token w := token_of_mem_words (by
      rw [hwords]
      exact List.mem_cons_of_mem _ (List.mem_of_getElem? hget))
    exact fun h0 => (hw.2 0 h0).2 rfl

end Requests

end Conferencing
