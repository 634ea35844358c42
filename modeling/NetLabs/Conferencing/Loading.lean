import NetLabs.Conferencing.Runs

/-!
# Start-up on any file

Only `EOF` ends the loop of `set_up_database`, and a call that meets a byte that is not a quote takes nothing.  So the
loop ends exactly on the files that are made of whole records and of pieces of records that are followed by a quote or
by the end of the file.  A piece adds its name with the last password before it, which is harmless when the name is
known (`Loadable`).
-/

namespace Conferencing

open CText LockProg Transition

/-- A text that the format reads up to the closing quote. -/
def Plain (s : Bytes) : Prop := ∀ b ∈ s, b ∉ ([124, 34] : Bytes)

instance decidablePlain (s : Bytes) : Decidable (Plain s) := List.decidableBAll _ s

/-! ### One call -/

section Calls

variable {u p : Bytes}

theorem stop_quote : (34 : Byte) ∈ ([124, 34] : Bytes) := by decide

/-- A record that is well formed, and the white space after it. -/
theorem fscanf_record (hu : u ≠ []) (hp : p ≠ []) (hplain : Plain u) (hplain' : Plain p) (rest : Bytes) :
    fscanf recordFormat (34 :: (u ++ 34 :: 58 :: 34 :: (p ++ 34 :: rest))) =
      ⟨[u, p], rest.dropWhile isSpace, .matched⟩ := by
  simp only [recordFormat, fscanf_lit, fscanf_set_append hu hplain stop_quote, fscanf_set_append hp hplain' stop_quote,
    fscanf_space, fscanf_end]

/-- A name that is not followed by a colon. -/
theorem fscanf_name {c : Byte} (hu : u ≠ []) (hplain : Plain u) (hc : c ≠ 58) (rest : Bytes) :
    fscanf recordFormat (34 :: (u ++ 34 :: c :: rest)) = ⟨[u], c :: rest, .mismatch⟩ := by
  simp only [recordFormat, fscanf_lit, fscanf_set_append hu hplain stop_quote, fscanf_lit_ne hc]

end Calls

/-! ### What a call takes -/

/-- What a call takes: a whole record, or the start of one. -/
inductive Piece
  | record (username password : Bytes)
  | torn (converted : List Bytes)

/-- The texts that the call assigns. -/
def Piece.converted : Piece → List Bytes
  | .record username password => [username, password]
  | .torn converted => converted

/-- A text that begins with a quote, the piece that a call takes of it, and the rest.  A torn record is followed by a
quote or by the end of the text. -/
inductive Reads : Bytes → Piece → Bytes → Prop
  | record {u p rest : Bytes} (hu : u ≠ []) (hp : p ≠ []) (hplain : Plain u) (hplain' : Plain p) :
      Reads (34 :: (u ++ 34 :: 58 :: 34 :: (p ++ 34 :: rest))) (.record u p) (rest.dropWhile isSpace)
  | quote {rest : Bytes} : Reads (34 :: 34 :: rest) (.torn []) (34 :: rest)
  | name {u rest : Bytes} (hu : u ≠ []) (hplain : Plain u) :
      Reads (34 :: (u ++ 34 :: 34 :: rest)) (.torn [u]) (34 :: rest)
  | colon {u rest : Bytes} (hu : u ≠ []) (hplain : Plain u) :
      Reads (34 :: (u ++ 34 :: 58 :: 34 :: 34 :: rest)) (.torn [u]) (34 :: rest)
  | cut {u tail : Bytes} (hu : u ≠ []) (hplain : Plain u)
      (htail : tail ∈ ([[], [34], [34, 58], [34, 58, 34]] : List Bytes)) : Reads (34 :: (u ++ tail)) (.torn [u]) []
  | cutPassword {u p : Bytes} (hu : u ≠ []) (hp : p ≠ []) (hplain : Plain u) (hplain' : Plain p) :
      Reads (34 :: (u ++ 34 :: 58 :: 34 :: p)) (.torn [u, p]) []

section Reads

variable {input rest : Bytes} {piece : Piece}

/-- The call takes the piece. -/
private theorem Reads.call (h : Reads input piece rest) : (fscanf recordFormat input).isEOF = false ∧
    (fscanf recordFormat input).converted = piece.converted ∧ (fscanf recordFormat input).rest = rest := by
  cases h with
  | record hu hp hplain hplain' =>
    rw [fscanf_record hu hp hplain hplain']
    exact ⟨rfl, rfl, rfl⟩
  | quote =>
    rw [recordFormat, fscanf_lit, fscanf_set_stop stop_quote]
    exact ⟨rfl, rfl, rfl⟩
  | name hu hplain =>
    rw [fscanf_name hu hplain (by decide)]
    exact ⟨rfl, rfl, rfl⟩
  | colon hu hplain =>
    simp only [recordFormat, fscanf_lit, fscanf_set_append hu hplain stop_quote, fscanf_set_stop stop_quote]
    exact ⟨rfl, rfl, trivial⟩
  | @cut u tail hu hplain htail =>
    have hstop := fun tail => fscanf_set_append (f := [.lit 34, .lit 58, .lit 34, .set [124, 34], .lit 34, .space])
      hu hplain stop_quote tail
    simp only [List.mem_cons, List.not_mem_nil, or_false] at htail
    rcases htail with rfl | rfl | rfl | rfl
    · rw [List.append_nil, recordFormat, fscanf_lit, fscanf_set_all hu hplain, fscanf_lit_nil]
      exact ⟨rfl, rfl, rfl⟩
    all_goals
      rw [recordFormat, fscanf_lit, hstop]
      simp [Scan.isEOF, Piece.converted]
  | cutPassword hu hp hplain hplain' =>
    simp only [recordFormat, fscanf_lit, fscanf_set_append hu hplain stop_quote, fscanf_set_all hp hplain',
      fscanf_lit_nil]
    exact ⟨rfl, rfl, trivial⟩

private theorem Reads.suffix (h : Reads input piece rest) : rest <:+ input := by
  cases h with
  | @record u p rest =>
    exact (List.dropWhile_suffix _).trans ⟨34 :: (u ++ 34 :: 58 :: 34 :: (p ++ [34])), by simp⟩
  | quote => exact ⟨[34], rfl⟩
  | @name u rest => exact ⟨34 :: (u ++ [34]), by simp⟩
  | @colon u rest => exact ⟨34 :: (u ++ [34, 58, 34]), by simp⟩
  | cut => exact List.nil_suffix
  | cutPassword => exact List.nil_suffix

/-- A call that takes no piece finds the file at its end or in front of its last quote, or comes to a stop at a byte
that is not a quote. -/
theorem reads_or_stuck (input : Bytes) : input = [] ∨ input = [34] ∨ (∃ piece rest, Reads input piece rest) ∨
    ∃ c rest, c ≠ 34 ∧ (fscanf recordFormat input).ending = .mismatch ∧
      (fscanf recordFormat input).rest = c :: rest := by
  have hbar : (124 : Byte) ≠ 34 := by decide
  have hbar' : (124 : Byte) ∈ ([124, 34] : Bytes) := by decide
  -- the directives one by one: the input ends, the byte is the wrong one, or the call goes on
  cases input with
  | nil => exact .inl rfl
  | cons q input =>
    by_cases hq : q = 34
    swap
    · exact .inr (.inr (.inr ⟨q, input, hq, by simp [recordFormat, fscanf_lit_ne hq]⟩))
    subst hq
    by_cases hnil : input = []
    · exact .inr (.inl (by rw [hnil]))
    right; right
    rcases exists_of_set_input [124, 34] input hnil with ⟨b, tail, hb, rfl⟩ | ⟨u, b, input, hu, hplain, hb, rfl⟩ | hall
    · rcases List.mem_pair.1 hb with rfl | rfl
      · exact .inr ⟨124, tail, hbar, by simp [recordFormat, fscanf_set_stop hbar']⟩
      · exact .inl ⟨_, _, .quote⟩
    swap
    · have hcut : Reads (34 :: (input ++ [])) (.torn [input]) [] := .cut hnil hall (by simp)
      rw [List.append_nil] at hcut
      exact .inl ⟨_, _, hcut⟩
    rcases List.mem_pair.1 hb with rfl | rfl
    · exact .inr ⟨124, input, hbar, by
        simp [recordFormat, fscanf_set_append hu hplain hbar', fscanf_lit_ne hbar]⟩
    cases input with
    | nil => exact .inl ⟨_, _, .cut hu hplain (by simp)⟩
    | cons c input =>
      by_cases hc : c = 58
      swap
      · by_cases hcq : c = 34
        · subst hcq
          exact .inl ⟨_, _, .name hu hplain⟩
        · exact .inr ⟨c, input, hcq, by simp [fscanf_name hu hplain hc]⟩
      subst hc
      cases input with
      | nil => exact .inl ⟨_, _, .cut hu hplain (by simp)⟩
      | cons c input =>
        by_cases hc : c = 34
        swap
        · exact .inr ⟨c, input, hc, by
            simp [recordFormat, fscanf_set_append hu hplain stop_quote, fscanf_lit_ne hc]⟩
        subst hc
        by_cases hnil : input = []
        · exact .inl ⟨_, _, .cut hu hplain (by simp [hnil])⟩
        rcases exists_of_set_input [124, 34] input hnil with ⟨b, tail, hb, rfl⟩ | ⟨p, b, tail, hp, hplain', hb, rfl⟩ |
          hall
        · rcases List.mem_pair.1 hb with rfl | rfl
          · exact .inr ⟨124, tail, hbar, by
              simp [recordFormat, fscanf_set_append hu hplain stop_quote, fscanf_set_stop hbar']⟩
          · exact .inl ⟨_, _, .colon hu hplain⟩
        · rcases List.mem_pair.1 hb with rfl | rfl
          · exact .inr ⟨124, tail, hbar, by
              simp [recordFormat, fscanf_set_append hu hplain stop_quote, fscanf_set_append hp hplain' hbar',
                fscanf_lit_ne hbar]⟩
          · exact .inl ⟨_, _, .record hu hp hplain hplain'⟩
        · exact .inl ⟨_, _, .cutPassword hu hnil hplain hall⟩

end Reads

/-! ### The loop as a relation -/

/-- The loop of `set_up_database` ends with the table `users'`. -/
inductive Loads : Bytes → NameBuffers → List User → List User → Prop
  | done {input : Bytes} {buffers : NameBuffers} {users : List User}
      (heof : (fscanf recordFormat input).isEOF = true) : Loads input buffers users users
  | step {input : Bytes} {buffers : NameBuffers} {users users' : List User} {username : CStr maxName}
      {password : CStr maxPassword} (hcall : (fscanf recordFormat input).isEOF = false)
      (hnames : readNames buffers (fscanf recordFormat input).converted = some (username, password))
      (hrest : Loads (fscanf recordFormat input).rest ⟨some username, some password⟩
        (addUser users (loadedUser username password)).2 users') : Loads input buffers users users'

section Loop

variable {input : Bytes} {buffers : NameBuffers} {users users' : List User}

theorem loads_iff : Loads input buffers users users' ↔
    ∃ fuel, setUpDatabaseLoop fuel input buffers users = .loaded users' := by
  constructor
  · intro h
    induction h with
    | done heof => exact ⟨1, by simp [setUpDatabaseLoop, heof]⟩
    | step hcall hnames _ ih =>
      obtain ⟨fuel, hfuel⟩ := ih
      exact ⟨fuel + 1, by simp only [setUpDatabaseLoop, hcall, hnames, hfuel, Bool.false_eq_true, ↓reduceIte]⟩
  · rintro ⟨fuel, h⟩
    induction fuel generalizing input buffers users with
    | zero => cases h
    | succ fuel ih =>
      unfold setUpDatabaseLoop at h
      dsimp only at h
      split at h
      · cases h
        exact .done ‹_›
      · rename_i hcall
        split at h
        · cases h
        · exact .step (by simpa using hcall) ‹_› (ih h)

theorem loads_nil : Loads [] buffers users users := .done (by decide)

/-- A turn that is not the last one. -/
theorem Loads.cases_step (h : Loads input buffers users users') (hcall : (fscanf recordFormat input).isEOF = false) :
    ∃ username password, readNames buffers (fscanf recordFormat input).converted = some (username, password) ∧
      Loads (fscanf recordFormat input).rest ⟨some username, some password⟩
        (addUser users (loadedUser username password)).2 users' := by
  cases h with
  | done heof =>
    rw [hcall] at heof
    cases heof
  | step _ hnames hrest => exact ⟨_, _, hnames, hrest⟩

theorem Loads.unique {users₁ users₂ : List User} (h₁ : Loads input buffers users users₁)
    (h₂ : Loads input buffers users users₂) : users₁ = users₂ := by
  induction h₁ with
  | done heof =>
    cases h₂ with
    | done => rfl
    | step hcall =>
      rw [heof] at hcall
      cases hcall
  | step hcall hnames _ ih =>
    obtain ⟨username, password, hnames', hrest⟩ := h₂.cases_step hcall
    obtain ⟨rfl, rfl⟩ := Prod.mk.inj (Option.some.inj (hnames.symm.trans hnames'))
    exact ih hrest

/-- The loop goes round for ever at a byte that is not a quote. -/
theorem not_loads_of_ne {c : Byte} (hc : c ≠ 34) : ¬ Loads (c :: input) buffers users users' := by
  intro h
  generalize hx : c :: input = x at h
  induction h with
  | done heof =>
    subst hx
    simp [recordFormat, fscanf_lit_ne hc, Scan.isEOF] at heof
  | step _ _ _ ih =>
    subst hx
    exact ih (by simp [recordFormat, fscanf_lit_ne hc])

end Loop

/-! ### What is added to the table -/

section Added

variable {users : List User} {u : User}

theorem names_addUser (users : List User) (u : User) : (addUser users u).2.map User.name = users.map User.name ∨
    (addUser users u).2.map User.name = users.map User.name ++ [u.name] := by
  unfold addUser
  split
  · exact Or.inl rfl
  · split
    · exact Or.inl rfl
    · right
      simp only [List.map_append, List.map_cons, List.map_nil]
      rfl

/-- Whether a record is added, and under which name, depends on its name only. -/
theorem names_addUser_congr (users : List User) {u u' : User} (h : u.name = u'.name) :
    (addUser users u).2.map User.name = (addUser users u').2.map User.name := by
  have hname : u.username.bytes = u'.username.bytes := h
  simp only [addUser, hname]
  split
  · rfl
  · split
    · rfl
    · simp only [List.map_append, List.map_cons, List.map_nil]
      exact congrArg (fun n => users.map User.name ++ [n]) h

private theorem search_eq_none_iff {name : Bytes} :
    databaseSearchUser users name = none ↔ name ∉ users.map User.name := by
  constructor
  · intro hnone hmem
    obtain ⟨v, hv, hname⟩ := List.mem_map.1 hmem
    exact Table.search_eq_none hnone hv hname
  · intro hnew
    cases hs : databaseSearchUser users name with
    | none => rfl
    | some i =>
      obtain ⟨v, hv⟩ := Table.exists_at hs
      exact absurd (List.mem_map.2 ⟨v, hv.mem, hv.key_eq⟩) hnew

theorem addUser_new (hroom : users.length < maxUserCount) (hnew : u.name ∉ users.map User.name) :
    (addUser users u).2 = users ++ [createUser u] := by
  have hsearch : databaseSearchUser users u.username.bytes = none := search_eq_none_iff.2 hnew
  simp [addUser, Nat.not_le.2 hroom, hsearch]

/-- A record is not added twice. -/
theorem addUser_known (hknown : u.name ∈ users.map User.name) : (addUser users u).2 = users := by
  have hsearch : databaseSearchUser users u.username.bytes ≠ none := fun hnone => search_eq_none_iff.1 hnone hknown
  unfold addUser
  rw [if_pos hsearch]
  split <;> rfl

theorem nodup_append_new {name : Bytes} (hnodup : (users.map User.name).Nodup)
    (hnew : databaseSearchUser users name = none) : (users.map User.name ++ [name]).Nodup := by
  refine List.nodup_append.2 ⟨hnodup, List.nodup_singleton _, fun a ha b hb => ?_⟩
  rintro rfl
  rw [List.mem_singleton.1 hb] at ha
  exact search_eq_none_iff.1 hnew ha

theorem nodup_names_addUser (hnodup : (users.map User.name).Nodup) :
    ((addUser users u).2.map User.name).Nodup := by
  by_cases hknown : u.name ∈ users.map User.name
  · rw [addUser_known hknown]
    exact hnodup
  · rcases names_addUser users u with heq | heq <;> rw [heq]
    · exact hnodup
    · exact nodup_append_new hnodup (search_eq_none_iff.2 hknown)

theorem length_addUser (h : users.length ≤ maxUserCount) : (addUser users u).2.length ≤ maxUserCount := by
  unfold addUser
  split
  · exact h
  · split
    · exact h
    · rw [List.length_append, List.length_singleton]
      omega

theorem Loads.length {input : Bytes} {buffers : NameBuffers} {users' : List User} (h : Loads input buffers users users')
    (hle : users.length ≤ maxUserCount) : users'.length ≤ maxUserCount := by
  induction h with
  | done _ => exact hle
  | step _ _ _ ih => exact ih (length_addUser hle)

end Added

/-! ### The two texts of a call -/

section Names

variable {buffers : NameBuffers} {converted : List Bytes} {username : CStr maxName} {password : CStr maxPassword}

theorem assign_of_readNames (h : readNames buffers converted = some (username, password)) :
    assign buffers.username converted[0]? = some (some username) ∧
      assign buffers.password converted[1]? = some (some password) := by
  simp only [readNames, Option.bind_eq_bind, Option.bind_eq_some_iff, Option.pure_def, Option.some.injEq,
    Prod.mk.injEq] at h
  obtain ⟨_, hu, _, hp, _, rfl, _, rfl, rfl, rfl⟩ := h
  exact ⟨hu, hp⟩

theorem bytes_of_assign {n : Nat} {old : Option (CStr n)} {s : Bytes} {t : CStr n}
    (h : assign old (some s) = some (some t)) : t.bytes = cstr s := by
  simp only [assign, Option.ite_none_right_eq_some] at h
  obtain ⟨t', ht, heq⟩ := Option.map_eq_some_iff.1 h.2
  obtain rfl := Option.some.inj heq
  exact CStr.ofBytes?_eq_some.1 ht

/-- An array holds a plain text before and after a call that may assign it. -/
theorem plain_of_assign {n : Nat} {old : Option (CStr n)} {text : Option Bytes} {t : CStr n}
    (h : assign old text = some (some t)) (hold : ∀ s, old = some s → Plain s.bytes)
    (htext : ∀ s, text = some s → Plain s) : Plain t.bytes := by
  cases text with
  | none => exact hold t (Option.some.inj h)
  | some s =>
    rw [bytes_of_assign h]
    exact fun b hb => htext s rfl b (List.takeWhile_subset _ hb)

theorem plain_of_converted {input s : Bytes} (h : s ∈ (fscanf recordFormat input).converted) : Plain s := by
  obtain ⟨-, stop, hmem, hclean⟩ := of_mem_converted h
  simp only [recordFormat, List.mem_cons, reduceCtorEq, Directive.set.injEq, List.not_mem_nil, or_false, false_or,
    or_self] at hmem
  rw [hmem] at hclean
  exact hclean

theorem mem_addUser {users : List User} {u v : User} (h : v ∈ (addUser users u).2) : v ∈ users ∨ v = createUser u := by
  unfold addUser at h
  split at h
  · exact Or.inl h
  · split at h
    · exact Or.inl h
    · simpa using h

end Names

/-! ### The files that can be loaded -/

/-- The file spells an account: it has a whole record of the two texts. -/
def Spelled (file username password : Bytes) : Prop :=
  ∃ before u p after, file = before ++ 34 :: (u ++ 34 :: 58 :: 34 :: (p ++ 34 :: after)) ∧
    u ≠ [] ∧ p ≠ [] ∧ Plain u ∧ Plain p ∧ cstr u = username ∧ cstr p = password

/-- The names of some pieces, in the order of the text. -/
def namesRead (pieces : List Piece) : List Bytes := pieces.filterMap fun piece => piece.converted[0]?.map cstr

/-- The passwords of some pieces. -/
def passwordsRead (pieces : List Piece) : List Bytes := pieces.filterMap fun piece => piece.converted[1]?.map cstr

/-- A piece and the closing NULs fit in the two arrays. -/
def Piece.Fits (piece : Piece) : Prop :=
  (∀ u, piece.converted[0]? = some u → u.length < maxName) ∧
    ∀ p, piece.converted[1]? = some p → p.length < maxPassword

/-- A piece is harmless after the pieces before it.  A torn record needs a whole one before it, and is harmless where
its name has been read, where the names of a full table have been read, or where the file spells its name with the
last password. -/
inductive HarmlessPiece (file : Bytes) (before : List Piece) : Piece → Prop
  | record {u p : Bytes} (hfits : (Piece.record u p).Fits) : HarmlessPiece file before (.record u p)
  | torn {converted : List Bytes} {username password : Bytes} (hfits : (Piece.torn converted).Fits)
      (hname : (namesRead (before ++ [.torn converted])).getLast? = some username)
      (hpassword : (passwordsRead (before ++ [.torn converted])).getLast? = some password)
      (h : username ∈ namesRead before ∨ maxUserCount ≤ (namesRead before).dedup.length ∨
        Spelled file username password) : HarmlessPiece file before (.torn converted)

/-- The text that follows some pieces of the file is made of harmless pieces, up to one quote at its end. -/
inductive Loadable (file : Bytes) : List Piece → Bytes → Prop
  | nil {before : List Piece} : Loadable file before []
  | quote {before : List Piece} : Loadable file before [34]
  | cons {before : List Piece} {input rest : Bytes} {piece : Piece} (hreads : Reads input piece rest)
      (hharmless : HarmlessPiece file before piece) (hrest : Loadable file (before ++ [piece]) rest) :
      Loadable file before input

private theorem getLast?_namesRead (before : List Piece) (piece : Piece) : (namesRead (before ++ [piece])).getLast? =
    (piece.converted[0]?.map cstr).or (namesRead before).getLast? := by
  simp only [namesRead, List.filterMap_append, List.filterMap_cons, List.filterMap_nil]
  cases piece.converted[0]? with
  | none => simp
  | some u => simp

private theorem getLast?_passwordsRead (before : List Piece) (piece : Piece) :
    (passwordsRead (before ++ [piece])).getLast? =
      (piece.converted[1]?.map cstr).or (passwordsRead before).getLast? := by
  simp only [passwordsRead, List.filterMap_append, List.filterMap_cons, List.filterMap_nil]
  cases piece.converted[1]? with
  | none => simp
  | some p => simp

private theorem mem_namesRead_append {before : List Piece} {piece : Piece} {name : Bytes} :
    name ∈ namesRead (before ++ [piece]) ↔ name ∈ namesRead before ∨ piece.converted[0]?.map cstr = some name := by
  rw [namesRead, List.filterMap_append, List.mem_append, ← namesRead]
  simp [Option.map_eq_some_iff]

/-! ### The arrays and the table after some pieces -/

/-- What the loop has in memory after some pieces. -/
structure AfterPieces (before : List Piece) (buffers : NameBuffers) (users : List User) : Prop where
  username : buffers.username.map CStr.bytes = (namesRead before).getLast?
  password : buffers.password.map CStr.bytes = (passwordsRead before).getLast?
  nodup : (users.map User.name).Nodup
  room : users.length ≤ maxUserCount
  known : ∀ u ∈ users, u.name ∈ namesRead before
  complete : users.length < maxUserCount → ∀ name ∈ namesRead before, name ∈ users.map User.name

section After

variable {before : List Piece} {buffers : NameBuffers} {users : List User} {piece : Piece}

private theorem afterPieces_nil : AfterPieces [] ⟨none, none⟩ [] :=
  ⟨rfl, rfl, List.nodup_nil, Nat.zero_le _, fun _ h => (nomatch h), fun _ _ h => (nomatch h)⟩

private theorem assign_iff {n : Nat} {old : Option (CStr n)} {text : Option Bytes} {new : CStr n} :
    assign old text = some (some new) ↔
      (∀ s, text = some s → s.length < n) ∧ (text.map cstr).or (old.map CStr.bytes) = some new.bytes := by
  cases text with
  | none =>
    simp only [assign, Option.some.injEq, reduceCtorEq, false_implies, implies_true, true_and, Option.map_none,
      Option.none_or, Option.map_eq_some_iff]
    exact ⟨fun h => ⟨new, h, rfl⟩, fun ⟨t, h, heq⟩ => h.trans (congrArg some (CStr.ext heq))⟩
  | some s =>
    simp only [assign, Option.ite_none_right_eq_some, Option.map_eq_some_iff, Option.some.injEq, exists_eq_right,
      CStr.ofBytes?_eq_some, Option.map_some, Option.some_or, forall_eq']
    exact and_congr_right fun _ => eq_comm

/-- The call fills the arrays with what has been read last. -/
private theorem AfterPieces.readNames_iff (h : AfterPieces before buffers users) {username : CStr maxName}
    {password : CStr maxPassword} : readNames buffers piece.converted = some (username, password) ↔ piece.Fits ∧
      (namesRead (before ++ [piece])).getLast? = some username.bytes ∧
      (passwordsRead (before ++ [piece])).getLast? = some password.bytes := by
  rw [getLast?_namesRead, getLast?_passwordsRead, ← h.username, ← h.password]
  have hassign : readNames buffers piece.converted = some (username, password) ↔
      assign buffers.username piece.converted[0]? = some (some username) ∧
        assign buffers.password piece.converted[1]? = some (some password) := by
    refine ⟨assign_of_readNames, fun ⟨hu, hp⟩ => ?_⟩
    simp only [readNames, hu, hp, Option.bind_eq_bind, Option.bind_some, Option.pure_def]
  rw [hassign, assign_iff, assign_iff, Piece.Fits]
  tauto

private theorem exists_array {n : Nat} {old : Option (CStr n)} {text : Option Bytes} {s : Bytes}
    (hfits : ∀ s, text = some s → s.length < n) (h : (text.map cstr).or (old.map CStr.bytes) = some s) :
    ∃ new : CStr n, new.bytes = s := by
  cases text with
  | none =>
    rw [Option.map_none, Option.none_or] at h
    obtain ⟨t, -, rfl⟩ := Option.map_eq_some_iff.1 h
    exact ⟨t, rfl⟩
  | some t =>
    obtain rfl := Option.some.inj h
    exact ⟨⟨cstr t, nulFree_cstr t, ((List.takeWhile_sublist _).length_le).trans_lt (hfits t rfl)⟩, rfl⟩

/-- The arrays are filled when the piece fits and both have been assigned. -/
private theorem AfterPieces.exists_readNames (h : AfterPieces before buffers users) {username password : Bytes}
    (hfits : piece.Fits) (hname : (namesRead (before ++ [piece])).getLast? = some username)
    (hpassword : (passwordsRead (before ++ [piece])).getLast? = some password) :
    ∃ (u : CStr maxName) (p : CStr maxPassword), u.bytes = username ∧ p.bytes = password ∧
      readNames buffers piece.converted = some (u, p) := by
  have hname' := hname
  have hpassword' := hpassword
  rw [getLast?_namesRead, ← h.username] at hname'
  rw [getLast?_passwordsRead, ← h.password] at hpassword'
  obtain ⟨u, rfl⟩ := exists_array hfits.1 hname'
  obtain ⟨p, rfl⟩ := exists_array hfits.2 hpassword'
  exact ⟨u, p, rfl, rfl, h.readNames_iff.2 ⟨hfits, hname, hpassword⟩⟩

/-- Whether the table is full, in terms of the names that have been read. -/
private theorem AfterPieces.full_iff (h : AfterPieces before buffers users) :
    users.length = maxUserCount ↔ maxUserCount ≤ (namesRead before).dedup.length := by
  have hlength : (users.map User.name).length = users.length := List.length_map _
  constructor
  · intro hfull
    have hsub : users.map User.name ⊆ (namesRead before).dedup := by
      intro name hmem
      obtain ⟨u, hu, rfl⟩ := List.mem_map.1 hmem
      exact List.mem_dedup.2 (h.known u hu)
    have := (h.nodup.subperm hsub).length_le
    omega
  · intro hle
    by_contra hroom
    have hsub : (namesRead before).dedup ⊆ users.map User.name := fun name hmem =>
      h.complete (lt_of_le_of_ne h.room hroom) name (List.mem_dedup.1 hmem)
    have := ((List.nodup_dedup _).subperm hsub).length_le
    have := h.room
    omega

/-- Nothing is added under a name that has been read, or to a full table. -/
private theorem AfterPieces.addUser_old (h : AfterPieces before buffers users) {u : User}
    (hold : u.name ∈ namesRead before ∨ maxUserCount ≤ (namesRead before).dedup.length) : (addUser users u).2 = users := by
  by_cases hfull : users.length = maxUserCount
  · simp only [addUser, hfull, ge_iff_le, le_refl, ↓reduceIte]
  · exact addUser_known (h.complete (lt_of_le_of_ne h.room hfull) _
      (hold.resolve_right fun hle => hfull (h.full_iff.2 hle)))

theorem AfterPieces.addUser_new (h : AfterPieces before buffers users) {u : User}
    (hnew : ¬ (u.name ∈ namesRead before ∨ maxUserCount ≤ (namesRead before).dedup.length)) :
    (addUser users u).2 = users ++ [createUser u] := by
  obtain ⟨hname, hroom⟩ := not_or.1 hnew
  refine Conferencing.addUser_new (lt_of_le_of_ne h.room fun hfull => hroom (h.full_iff.1 hfull)) fun hmem => ?_
  obtain ⟨v, hv, heq⟩ := List.mem_map.1 hmem
  exact hname (heq ▸ h.known v hv)

/-- One turn of the loop. -/
theorem AfterPieces.turn (h : AfterPieces before buffers users) {username : CStr maxName} {password : CStr maxPassword}
    (hnames : readNames buffers piece.converted = some (username, password)) :
    AfterPieces (before ++ [piece]) ⟨some username, some password⟩
      (addUser users (loadedUser username password)).2 := by
  obtain ⟨-, hname, hpassword⟩ := h.readNames_iff.1 hnames
  have hread : (loadedUser username password).name ∈ namesRead (before ++ [piece]) := List.mem_of_getLast? hname
  have hlast : ∀ name, name ∈ namesRead (before ++ [piece]) →
      name ∈ namesRead before ∨ name = (loadedUser username password).name := by
    intro name hmem
    refine (mem_namesRead_append.1 hmem).imp_right fun hlast => ?_
    rw [getLast?_namesRead, hlast, Option.some_or] at hname
    exact Option.some.inj hname
  refine ⟨hname.symm, hpassword.symm, nodup_names_addUser h.nodup, length_addUser h.room, ?_, ?_⟩
  · intro u hu
    rcases mem_addUser hu with hu | rfl
    · exact mem_namesRead_append.2 (Or.inl (h.known u hu))
    · exact hread
  · -- there was room before, so every name of the pieces before is in the table; the new one may be another
    intro hroom name hmem
    by_cases hold : (loadedUser username password).name ∈ namesRead before ∨
        maxUserCount ≤ (namesRead before).dedup.length
    · rw [h.addUser_old hold] at hroom ⊢
      refine h.complete hroom name ?_
      rcases hlast name hmem with hmem | rfl
      · exact hmem
      · exact hold.resolve_right fun hle => absurd (h.full_iff.2 hle) hroom.ne
    · rw [h.addUser_new hold, List.length_append] at hroom
      rw [h.addUser_new hold, List.map_append]
      rcases hlast name hmem with hmem | rfl
      · exact List.mem_append_left _ (h.complete (by omega) name hmem)
      · exact List.mem_append_right _ (by simp [createUser, User.name])

end After

/-! ### Start-up -/

section StartUp

variable {file input : Bytes} {before : List Piece} {buffers : NameBuffers} {users users' : List User}

/-- Nothing is removed from the table. -/
theorem Loads.mem (h : Loads input buffers users users') {u : User} (hu : u ∈ users) : u ∈ users' := by
  induction h with
  | done _ => exact hu
  | @step _ _ users _ username password _ _ _ ih =>
    refine ih ?_
    unfold addUser
    split
    · exact hu
    · split
      · exact hu
      · exact List.mem_append_left _ hu

private theorem Reads.spelled {rest u p : Bytes} (h : Reads input (.record u p) rest) (hsuffix : input <:+ file) :
    Spelled file (cstr u) (cstr p) := by
  obtain ⟨before, rfl⟩ := hsuffix
  cases h with
  | record hu hp hplain hplain' => exact ⟨before, u, p, _, rfl, hu, hp, hplain, hplain', rfl, rfl⟩

/-- A loop that ends, and adds only accounts that the file spells, goes over harmless pieces. -/
private theorem loadable_of_loads (h : Loads input buffers users users') (hafter : AfterPieces before buffers users)
    (hspelled : ∀ u ∈ users', Spelled file u.username.bytes u.password.bytes) : Loadable file before input := by
  induction h generalizing before with
  | @done input _ _ heof =>
    rcases reads_or_stuck input with rfl | rfl | ⟨_, _, hreads⟩ | ⟨_, _, _, hending, _⟩
    · exact .nil
    · exact .quote
    · rw [hreads.call.1] at heof
      cases heof
    · rw [Scan.isEOF_of_ne (by simp [hending])] at heof
      cases heof
  | @step input buffers users users' username password hcall hnames hrest ih =>
    rcases reads_or_stuck input with rfl | rfl | ⟨piece, rest, hreads⟩ | ⟨c, rest, hc, _, hstuck⟩
    · exact .nil
    · exact .quote
    · obtain ⟨-, hconverted, hleft⟩ := hreads.call
      rw [hconverted] at hnames
      have hrest' := ih (hafter.turn hnames) hspelled
      rw [hleft] at hrest'
      obtain ⟨hfits, hname, hpassword⟩ := hafter.readNames_iff.1 hnames
      refine .cons hreads ?_ hrest'
      cases piece with
      | record u p => exact .record hfits
      | torn converted =>
        refine .torn hfits hname hpassword ?_
        -- a name that is new stays in the table, and the file spells it
        by_cases hold : username.bytes ∈ namesRead before ∨ maxUserCount ≤ (namesRead before).dedup.length
        · exact hold.imp_right Or.inl
        · have hadded := hafter.addUser_new (u := loadedUser username password) hold
          have hmem : createUser (loadedUser username password) ∈ users' := hrest.mem (by rw [hadded]; simp)
          exact Or.inr (Or.inr (hspelled _ hmem))
    · rw [hstuck] at hrest
      exact absurd hrest (not_loads_of_ne hc)

/-- A harmless piece is read, and adds nothing that the file does not spell. -/
theorem HarmlessPiece.turn {rest : Bytes} {piece : Piece} (h : HarmlessPiece file before piece) (hreads : Reads input piece rest)
    (hsuffix : input <:+ file) (hafter : AfterPieces before buffers users)
    (hspelled : ∀ u ∈ users, Spelled file u.username.bytes u.password.bytes) :
    ∃ username password, readNames buffers piece.converted = some (username, password) ∧
      ∀ u ∈ (addUser users (loadedUser username password)).2, Spelled file u.username.bytes u.password.bytes := by
  cases h with
  | @record u p hfits =>
    have hname : (namesRead (before ++ [.record u p])).getLast? = some (cstr u) := by rw [getLast?_namesRead]; rfl
    have hpassword : (passwordsRead (before ++ [.record u p])).getLast? = some (cstr p) := by
      rw [getLast?_passwordsRead]
      rfl
    obtain ⟨username, password, hu, hp, hnames⟩ := hafter.exists_readNames hfits hname hpassword
    refine ⟨username, password, hnames, fun v hv => ?_⟩
    rcases mem_addUser hv with hv | rfl
    · exact hspelled v hv
    · have := hreads.spelled hsuffix
      rw [← hu, ← hp] at this
      exact this
  | torn hfits hname hpassword hold =>
    obtain ⟨username, password, rfl, rfl, hnames⟩ := hafter.exists_readNames hfits hname hpassword
    refine ⟨username, password, hnames, fun v hv => ?_⟩
    rcases or_assoc.2 hold with hold | hold
    · have hsame := hafter.addUser_old (u := loadedUser username password) hold
      rw [hsame] at hv
      exact hspelled v hv
    · rcases mem_addUser hv with hv | rfl
      · exact hspelled v hv
      · exact hold

/-- HarmlessPiece pieces are loaded, and the file spells what they add. -/
private theorem loads_of_loadable (h : Loadable file before input) (hsuffix : input <:+ file)
    (hafter : AfterPieces before buffers users)
    (hspelled : ∀ u ∈ users, Spelled file u.username.bytes u.password.bytes) :
    ∃ users', Loads input buffers users users' ∧ ∀ u ∈ users', Spelled file u.username.bytes u.password.bytes := by
  induction h generalizing buffers users with
  | nil => exact ⟨users, loads_nil, hspelled⟩
  | quote => exact ⟨users, .done (by decide), hspelled⟩
  | @cons before input rest piece hreads hharmless _ ih =>
    obtain ⟨hcall, hconverted, hleft⟩ := hreads.call
    obtain ⟨username, password, hnames, hadded⟩ := hharmless.turn hreads hsuffix hafter hspelled
    obtain ⟨users', hrest, hspelled'⟩ := ih (hreads.suffix.trans hsuffix) (hafter.turn hnames) hadded
    rw [← hconverted] at hnames
    rw [← hleft] at hrest
    exact ⟨users', .step hcall hnames hrest, hspelled'⟩

/-- The loop of `set_up_database` ends, and the file spells every account that it adds, exactly when the file is made of
harmless pieces. -/
theorem start_up_iff (file : Bytes) :
    (∃ users, SetUpDatabase file users ∧ ∀ u ∈ users, Spelled file u.username.bytes u.password.bytes) ↔
      Loadable file [] file := by
  constructor
  · rintro ⟨users, hload, hspelled⟩
    exact loadable_of_loads (loads_iff.2 hload) afterPieces_nil hspelled
  · intro h
    obtain ⟨users, hloads, hspelled⟩ := loads_of_loadable h List.suffix_rfl afterPieces_nil fun _ h => (nomatch h)
    exact ⟨users, loads_iff.1 hloads, hspelled⟩

end StartUp

/-- A record as a file can have it: the two texts, and the white space behind them. -/
structure FileRecord where
  username : Bytes
  password : Bytes
  blank : Bytes
  username_ne : username ≠ []
  password_ne : password ≠ []
  plain : Plain username
  plain' : Plain password
  fits : username.length < maxName ∧ password.length < maxPassword
  blank_space : ∀ b ∈ blank, isSpace b = true

/-- The text of some records. -/
def recordsText (records : List FileRecord) : Bytes :=
  records.flatMap fun r => 34 :: (r.username ++ 34 :: 58 :: 34 :: (r.password ++ 34 :: r.blank))

/-- A file of whole records is loaded. -/
theorem loadable_recordsText (file : Bytes) (before : List Piece) (records : List FileRecord) :
    Loadable file before (recordsText records) := by
  induction records generalizing before with
  | nil => exact .nil
  | cons r records ih =>
    have hskip : (recordsText records).dropWhile isSpace = recordsText records := by
      cases records with
      | nil => rfl
      | cons r' records => exact List.dropWhile_cons_of_neg (by decide)
    have hrest : (r.blank ++ recordsText records).dropWhile isSpace = recordsText records := by
      rw [List.dropWhile_append_of_pos r.blank_space, hskip]
    have htext : recordsText (r :: records) =
        34 :: (r.username ++ 34 :: 58 :: 34 :: (r.password ++ 34 :: (r.blank ++ recordsText records))) := by
      simp [recordsText]
    have hreads : Reads (recordsText (r :: records)) (.record r.username r.password)
        ((r.blank ++ recordsText records).dropWhile isSpace) :=
      htext ▸ .record r.username_ne r.password_ne r.plain r.plain'
    rw [hrest] at hreads
    refine .cons hreads (.record ⟨?_, ?_⟩) (ih _)
    · rintro u ⟨⟩
      exact r.fits.1
    · rintro p ⟨⟩
      exact r.fits.2

/-- A file of one record, which the server loads. -/
def annFile : Bytes := (recordLine (ascii "ann") (ascii "pw")).tail

/-- The same file after the registration of a user `a|b`. -/
def barFile : Bytes := annFile ++ recordLine (ascii "a|b") (ascii "x")

/-- At a byte that is not a quote every turn is the same. -/
private theorem running_of_ne {c : Byte} (hc : c ≠ 34) (input : Bytes) (username : CStr maxName)
    (password : CStr maxPassword)
    (fuel : Nat) (users : List User) :
    setUpDatabaseLoop fuel (c :: input) ⟨some username, some password⟩ users = .running := by
  induction fuel generalizing users with
  | zero => rfl
  | succ fuel ih =>
    have hcall : fscanf recordFormat (c :: input) = ⟨[], c :: input, .mismatch⟩ := by
      rw [recordFormat, fscanf_lit_ne hc]
    simp only [setUpDatabaseLoop, hcall, Scan.isEOF]
    exact ih _

/-- `a|b` registers on a server that has loaded a file of one record.  The file that it writes is never loaded again. -/
theorem start_up_fails : (∃ loaded s, SetUpDatabase annFile loaded ∧
    runFrom ServerState.next (started annFile loaded) [.accept 3 ⟨[], by decide, by decide⟩,
      .recv 3 (ascii "13:3:a|b:x")] = some s ∧ s.world.mem.file = barFile) ∧
    (∀ fuel, setUpDatabaseLoop fuel barFile ⟨none, none⟩ [] = .running) ∧
    ¬ ∃ users, SetUpDatabase barFile users ∧ ∀ u ∈ users, Spelled barFile u.username.bytes u.password.bytes := by
  have hrunning : ∀ fuel, setUpDatabaseLoop fuel barFile ⟨none, none⟩ [] = .running := by
    intro fuel
    match fuel with
    | 0 => rfl
    | 1 => decide
    | fuel + 2 =>
      have hfirst : fscanf recordFormat barFile = ⟨[ascii "ann", ascii "pw"], ascii "\"a|b\":\"x\"", .matched⟩ := by
        decide
      have hsecond : fscanf recordFormat (ascii "\"a|b\":\"x\"") = ⟨[ascii "a"], ascii "|b\":\"x\"", .mismatch⟩ := by
        decide
      let ann : CStr maxName := ⟨ascii "ann", by decide, by decide⟩
      let pw : CStr maxPassword := ⟨ascii "pw", by decide, by decide⟩
      have hnames : readNames ⟨none, none⟩ [ascii "ann", ascii "pw"] = some (ann, pw) := by decide
      have hnames' : readNames ⟨some ann, some pw⟩ [ascii "a"] = some (⟨ascii "a", by decide, by decide⟩, pw) := by
        decide
      simp only [setUpDatabaseLoop, hfirst, hsecond, hnames, hnames', Scan.isEOF]
      exact running_of_ne (by decide) _ _ _ fuel _
  refine ⟨?_, hrunning, ?_⟩
  · let loaded : List User :=
      [createUser (loadedUser ⟨ascii "ann", by decide, by decide⟩ ⟨ascii "pw", by decide, by decide⟩)]
    let events : List Event := [.accept 3 ⟨[], by decide, by decide⟩, .recv 3 (ascii "13:3:a|b:x")]
    have hfile : (runFrom ServerState.next (started annFile loaded) events).map (fun s => s.world.mem.file) =
        some barFile := by decide
    obtain ⟨s, hs, hfile⟩ := Option.map_eq_some_iff.1 hfile
    exact ⟨loaded, s, ⟨2, by decide⟩, hs, hfile⟩
  · rintro ⟨users, ⟨fuel, hfuel⟩, -⟩
    rw [hrunning fuel] at hfuel
    cases hfuel

end Conferencing
