import NetLabs.Conferencing.Client
import NetLabs.Conferencing.Loading

/-!
# Accounts across a restart

`write_to_database` appends `\n"<username>":"<password>"`, and `set_up_database` reads with
`"\"%[^|\"]\":\"%[^|\"]\"\n"`.  The line break in front of a new record is skipped by the end of the call that reads
the record before it, so what has been registered is loaded again exactly when the file ended in a whole record
(`EndsInRecord`), and every name and password can be read by the format and fits its array (`Storable`).  On the empty
file nothing skips the first line break, and the loop never ends.
-/

namespace Conferencing

open CText LockProg Transition

/-- A username and a password. -/
abbrev Account := CStr maxName × CStr maxPasswordLength

/-- The lines that `write_to_database` appends for some registrations. -/
def recordLines (registered : List Account) : Bytes :=
  registered.flatMap fun a => recordLine a.1.bytes a.2.bytes

/-- What passes the checks of the client. -/
structure TypedAccount (username password : Bytes) : Prop where
  username_ne : username ≠ []
  password_ne : password ≠ []
  username_typed : (32 : Byte) ∉ username ∧ (10 : Byte) ∉ username
  password_typed : (32 : Byte) ∉ password ∧ (10 : Byte) ∉ password
  username_fits : username.length ≤ 16
  password_fits : password.length ≤ 19
  colonFree : colon ∉ username

/-- The accounts that can be loaded. -/
def Storable (a : Account) : Prop := Plain a.1.bytes ∧ Plain a.2.bytes ∧ a.2.bytes.length < maxPassword

/-! ### Calls at the end of the file -/

section Calls

variable {u : Bytes}

theorem Plain.append {p : Bytes} (hu : Plain u) (hp : Plain p) : Plain (u ++ p) := fun b hb =>
  (List.mem_append.1 hb).elim (hu b) (hp b)

private theorem plain_break : Plain [10] := by decide

/-- White space is skipped in a text that goes on with a quote. -/
private theorem dropWhile_line (hplain : Plain u) (rest : Bytes) : (∃ c tail, c ≠ 34 ∧
    (u ++ 34 :: rest).dropWhile isSpace = c :: tail) ∨ (u ++ 34 :: rest).dropWhile isSpace = 34 :: rest := by
  induction u with
  | nil => exact Or.inr rfl
  | cons c u ih =>
    by_cases hc : isSpace c = true
    · rw [List.cons_append, List.dropWhile_cons_of_pos hc]
      exact ih fun b hb => hplain b (List.mem_cons_of_mem _ hb)
    · left
      refine ⟨c, u ++ 34 :: rest, ?_, by rw [List.cons_append, List.dropWhile_cons_of_neg hc]⟩
      rintro rfl
      exact hplain 34 (by simp) stop_quote

/-- The ends of a file at which a call runs out of input. -/
inductive Unfinished : Bytes → Prop
  | empty : Unfinished []
  | username {u : Bytes} (hplain : Plain u) : Unfinished (34 :: u)
  | quote {u : Bytes} (hu : u ≠ []) (hplain : Plain u) : Unfinished (34 :: (u ++ [34]))
  | colon {u : Bytes} (hu : u ≠ []) (hplain : Plain u) : Unfinished (34 :: (u ++ [34, 58]))
  | password {u p : Bytes} (hu : u ≠ []) (hplain : Plain u) (hplain' : Plain p) :
      Unfinished (34 :: (u ++ 34 :: 58 :: 34 :: p))

private theorem unfinished_of_inputFailure {input : Bytes} (h : (fscanf recordFormat input).ending = .inputFailure) :
    Unfinished input := by
  have hplain_nil : Plain [] := fun _ hb => nomatch hb
  rcases reads_or_stuck input with rfl | rfl | ⟨piece, rest, hreads⟩ | ⟨_, _, _, hending, _⟩
  · exact .empty
  · exact .username hplain_nil
  · cases hreads with
    | record hu hp hplain hplain' => simp [fscanf_record hu hp hplain hplain'] at h
    | quote => simp [recordFormat, fscanf_set_stop stop_quote] at h
    | name hu hplain => simp [fscanf_name hu hplain] at h
    | colon hu hplain =>
      simp [recordFormat, fscanf_set_append hu hplain stop_quote, fscanf_set_stop stop_quote] at h
    | @cut u tail hu hplain htail =>
      simp only [List.mem_cons, List.not_mem_nil, or_false] at htail
      rcases htail with rfl | rfl | rfl | rfl
      · rw [List.append_nil]
        exact .username hplain
      · exact .quote hu hplain
      · exact .colon hu hplain
      · exact .password hu hplain hplain_nil
    | cutPassword hu hp hplain hplain' => exact .password hu hplain hplain'
  · rw [hending] at h
    cases h

/-- What a call leaves when its input ends in an unfinished record and goes on with a line.  The line break and the
quote of the line are taken for the rest of the record. -/
private theorem fscanf_unfinished {input : Bytes} (h : Unfinished input) {c : Byte} (hc : c ≠ 34) (hc' : c ≠ 58)
    (rest : Bytes) : (fscanf recordFormat (input ++ 10 :: 34 :: c :: rest)).isEOF = false ∧
      ((∃ b tail, b ≠ 34 ∧ (fscanf recordFormat (input ++ 10 :: 34 :: c :: rest)).rest = b :: tail) ∨
        (fscanf recordFormat (input ++ 10 :: 34 :: c :: rest)).converted[0]? =
            (fscanf recordFormat input).converted[0]? ∧ (fscanf recordFormat input).converted ≠ [] ∧
          (fscanf recordFormat (input ++ 10 :: 34 :: c :: rest)).rest = (c :: rest).dropWhile isSpace) := by
  have hbreak : (10 : Byte) ≠ 34 := by decide
  have hbreak' : (10 : Byte) ≠ 58 := by decide
  cases h with
  | empty =>
    simp only [List.nil_append, recordFormat, fscanf_lit_ne hbreak]
    exact ⟨Scan.isEOF_of_ne (by simp), Or.inl ⟨_, _, hbreak, rfl⟩⟩
  | @username u hplain =>
    have happ : 34 :: u ++ 10 :: 34 :: c :: rest = 34 :: ((u ++ [10]) ++ 34 :: c :: rest) := by simp
    rw [happ, fscanf_name (by simp) (hplain.append plain_break) hc']
    exact ⟨Scan.isEOF_of_ne (by simp), Or.inl ⟨c, rest, hc, rfl⟩⟩
  | @quote u hu hplain =>
    have happ : 34 :: (u ++ [34]) ++ 10 :: 34 :: c :: rest = 34 :: (u ++ 34 :: 10 :: 34 :: c :: rest) := by simp
    rw [happ, fscanf_name hu hplain hbreak']
    exact ⟨Scan.isEOF_of_ne (by simp), Or.inl ⟨_, _, hbreak, rfl⟩⟩
  | @colon u hu hplain =>
    have happ : 34 :: (u ++ [34, 58]) ++ 10 :: 34 :: c :: rest = 34 :: (u ++ 34 :: 58 :: 10 :: 34 :: c :: rest) := by
      simp
    rw [happ]
    simp only [recordFormat, fscanf_lit, fscanf_set_append hu hplain stop_quote, fscanf_lit_ne hbreak]
    exact ⟨Scan.isEOF_of_ne (by simp), Or.inl ⟨_, _, hbreak, rfl⟩⟩
  | @password u p hu hplain hplain' =>
    have happ : 34 :: (u ++ 34 :: 58 :: 34 :: p) ++ 10 :: 34 :: c :: rest =
        34 :: (u ++ 34 :: 58 :: 34 :: ((p ++ [10]) ++ 34 :: c :: rest)) := by simp
    have hconverted : (fscanf recordFormat (34 :: (u ++ 34 :: 58 :: 34 :: p))).converted[0]? = some u := by
      simp only [recordFormat, fscanf_lit, fscanf_set_append hu hplain stop_quote]
      rfl
    rw [happ, fscanf_record hu (by simp) hplain (hplain'.append plain_break), hconverted]
    refine ⟨Scan.isEOF_of_ne (by simp), Or.inr ⟨rfl, ?_, rfl⟩⟩
    intro hnil
    rw [hnil] at hconverted
    cases hconverted

end Calls

/-! ### What is loaded can be loaded again -/

/-- Only what the format can read is ever loaded. -/
private theorem Loads.storable {input : Bytes} {buffers : NameBuffers} {users users' : List User}
    (h : Loads input buffers users users')
    (hbuffers : (∀ s, buffers.username = some s → Plain s.bytes) ∧ ∀ s, buffers.password = some s → Plain s.bytes)
    (husers : ∀ u ∈ users, Storable u.account) : ∀ u ∈ users', Storable u.account := by
  induction h with
  | done _ => exact husers
  | @step input buffers _ _ username password _ hnames _ ih =>
    obtain ⟨hassign, hassign'⟩ := assign_of_readNames hnames
    have hplain := plain_of_assign hassign hbuffers.1 fun s hs => plain_of_converted (List.mem_of_getElem? hs)
    have hplain' := plain_of_assign hassign' hbuffers.2 fun s hs => plain_of_converted (List.mem_of_getElem? hs)
    refine ih ⟨?_, ?_⟩ fun u hu => ?_
    · rintro s hs
      obtain rfl := Option.some.inj hs
      exact hplain
    · rintro s hs
      obtain rfl := Option.some.inj hs
      exact hplain'
    · rcases mem_addUser hu with hu | rfl
      · exact husers u hu
      · exact ⟨hplain, hplain', password.fits⟩

/-! ### Lines that are read from the middle -/

private theorem recordLines_cons (a : Account) (registered : List Account) : recordLines (a :: registered) =
    10 :: 34 :: (a.1.bytes ++ 34 :: 58 :: 34 :: (a.2.bytes ++ 34 :: recordLines registered)) := by
  simp [recordLines, recordLine]

/-- An account whose texts are not empty and plain. -/
structure Written (a : Account) : Prop where
  username_ne : a.1.bytes ≠ []
  password_ne : a.2.bytes ≠ []
  plain : Plain a.1.bytes
  plain' : Plain a.2.bytes

private theorem mem_names_addUser {users : List User} {u : User} {name : Bytes}
    (h : name ∈ (addUser users u).2.map User.name) : name ∈ users.map User.name ∨ name = u.name := by
  rcases names_addUser users u with heq | heq <;> rw [heq] at h
  · exact Or.inl h
  · simpa using h

/-- The quoted colon between the name and the password of a line, taken for a name. -/
private theorem names_of_colon {buffers : NameBuffers} {users users' : List User} {p : Bytes} (hp : p ≠ [])
    (hplain : Plain p) {rest : Bytes}
    (hrest : ∀ {buffers users}, Loads (fscanf [.set [124, 34], .lit 34, .space] rest).rest buffers users users' →
      ∀ name ∈ users'.map User.name, name ∈ users.map User.name ∨ name = [colon])
    (h : Loads (34 :: 58 :: 34 :: (p ++ 34 :: rest)) buffers users users') :
    ∀ name ∈ users'.map User.name, name ∈ users.map User.name ∨ name = [colon] := by
  obtain ⟨c, p, rfl⟩ := List.exists_cons_of_ne_nil hp
  have hcolon : Plain [colon] := by
    intro b hb
    rw [List.mem_singleton.1 hb]
    decide
  have hquote : ∀ b ∈ c :: p, b ≠ 34 := by
    rintro b hb rfl
    exact hplain 34 hb stop_quote
  have hcall : ∀ rest, fscanf recordFormat (34 :: 58 :: 34 :: rest) =
      { fscanf [.lit 58, .lit 34, .set [124, 34], .lit 34, .space] rest with
        converted := [colon] :: (fscanf [.lit 58, .lit 34, .set [124, 34], .lit 34, .space] rest).converted } := by
    intro rest
    have := fscanf_set_append (f := [.lit 34, .lit 58, .lit 34, .set [124, 34], .lit 34, .space]) (s := [colon])
      (by simp) hcolon stop_quote rest
    rw [fscanf_lit] at this
    exact (fscanf_lit 34 _).trans this
  obtain ⟨username, password, hnames, hloads⟩ := h.cases_step (by rw [hcall]; simp [Scan.isEOF])
  rw [hcall] at hnames hloads
  have hname : username.bytes = [colon] := bytes_of_assign (assign_of_readNames hnames).1
  have hadded : ∀ name ∈ (addUser users (loadedUser username password)).2.map User.name,
      name ∈ users.map User.name ∨ name = [colon] := fun name hmem => (mem_names_addUser hmem).imp_right (·.trans hname)
  by_cases hc : c = 58
  swap
  · simp only [List.cons_append, fscanf_lit_ne hc] at hloads
    exact absurd hloads (not_loads_of_ne (hquote c (by simp)))
  subst hc
  cases p with
  | cons d p =>
    have hd := hquote d (by simp)
    simp only [List.cons_append, fscanf_lit, fscanf_lit_ne hd] at hloads
    exact absurd hloads (not_loads_of_ne hd)
  | nil =>
    simp only [List.cons_append, List.nil_append, fscanf_lit] at hloads
    intro name hmem
    rcases hrest hloads name hmem with h | h
    · exact hadded name h
    · exact Or.inr h

/-- A loop that has come to the rest of a line, past its name, adds no other name than the colon. -/
private theorem names_of_stray {registered : List Account} (hwritten : ∀ a ∈ registered, Written a) {a : Account}
    (ha : Written a) {buffers : NameBuffers} {users users' : List User}
    (h : Loads ((a.1.bytes ++ 34 :: 58 :: 34 :: (a.2.bytes ++ 34 :: recordLines registered)).dropWhile isSpace) buffers
      users users') : ∀ name ∈ users'.map User.name, name ∈ users.map User.name ∨ name = [colon] := by
  rcases dropWhile_line ha.plain (58 :: 34 :: (a.2.bytes ++ 34 :: recordLines registered)) with
    ⟨c, tail, hc, heq⟩ | heq
  · rw [heq] at h
    exact absurd h (not_loads_of_ne hc)
  · rw [heq] at h
    refine names_of_colon ha.password_ne ha.plain' (fun {buffers users} h => ?_) h
    cases registered with
    | nil =>
      have hnil : recordLines [] = [] := rfl
      rw [hnil, fscanf_set_nil] at h
      rw [h.unique loads_nil]
      exact fun name hmem => Or.inl hmem
    | cons a' registered =>
      have hline := fscanf_set_append (f := [.lit 34, .space]) (s := [10]) (by simp) plain_break stop_quote
        (a'.1.bytes ++ 34 :: 58 :: 34 :: (a'.2.bytes ++ 34 :: recordLines registered))
      rw [recordLines_cons, show ∀ l : Bytes, 10 :: 34 :: l = [10] ++ 34 :: l from fun _ => rfl, hline] at h
      simp only [fscanf_lit, fscanf_space, fscanf_end] at h
      exact names_of_stray (fun b hb => hwritten b (List.mem_cons_of_mem _ hb)) (hwritten a' (by simp)) h
termination_by registered.length

/-! ### Where the file ends -/

/-- A turn of the loop that is not the last one. -/
def Call (input rest : Bytes) : Prop :=
  (fscanf recordFormat input).isEOF = false ∧ (fscanf recordFormat input).rest = rest

/-- The calls of the loop come to a call that matches a whole record and uses up the file. -/
def EndsInRecord (file : Bytes) : Prop :=
  ∃ input, Relation.ReflTransGen Call file input ∧ (fscanf recordFormat input).ending = .matched ∧
    (fscanf recordFormat input).rest = []

section Ends

variable {input : Bytes}

private theorem inputFailure_of_isEOF (heof : (fscanf recordFormat input).isEOF = true) :
    (fscanf recordFormat input).ending = .inputFailure := by
  simp only [Scan.isEOF, decide_eq_true_eq] at heof
  exact heof.1

private theorem not_endsInRecord_of_eof (heof : (fscanf recordFormat input).isEOF = true) : ¬ EndsInRecord input := by
  rintro ⟨last, hcalls, hmatched, -⟩
  rcases hcalls.cases_head with rfl | ⟨_, hcall, -⟩
  · rw [inputFailure_of_isEOF heof] at hmatched
    cases hmatched
  · exact absurd (heof.symm.trans hcall.1) (by decide)

/-- After a call that leaves something. -/
private theorem endsInRecord_step (hcall : (fscanf recordFormat input).isEOF = false)
    (hrest : (fscanf recordFormat input).rest ≠ []) :
    EndsInRecord (fscanf recordFormat input).rest ↔ EndsInRecord input := by
  constructor
  · rintro ⟨last, hcalls, hlast⟩
    exact ⟨last, .head ⟨hcall, rfl⟩ hcalls, hlast⟩
  · rintro ⟨last, hcalls, hlast⟩
    rcases hcalls.cases_head with rfl | ⟨_, ⟨-, rfl⟩, hcalls⟩
    · exact absurd hlast.2 hrest
    · exact ⟨last, hcalls, hlast⟩

/-- At the call that uses up the file. -/
private theorem endsInRecord_last (hrest : (fscanf recordFormat input).rest = []) :
    EndsInRecord input ↔ (fscanf recordFormat input).ending = .matched := by
  constructor
  · rintro ⟨last, hcalls, hlast⟩
    rcases hcalls.cases_head with rfl | ⟨_, ⟨-, rfl⟩, hcalls⟩
    · exact hlast.1
    · rw [hrest] at hcalls
      exact absurd ⟨last, hcalls, hlast⟩ (not_endsInRecord_of_eof (by decide))
  · exact fun h => ⟨input, .refl, h, hrest⟩

end Ends

section Appended

variable {input : Bytes} {buffers : NameBuffers} {users users' : List User}

/-- A call that leaves something of the file does the same when lines have been appended. -/
private theorem fscanf_line (hrest : (fscanf recordFormat input).rest ≠ []) (t : Bytes) :
    fscanf recordFormat (input ++ t) =
      { fscanf recordFormat input with rest := (fscanf recordFormat input).rest ++ t } := fscanf_append hrest t

/-- The lines after a whole record are read from the first quote on. -/
theorem Loads.append (h : Loads input buffers users users') (hend : EndsInRecord input) (t : Bytes) :
    ∃ buffers', ∀ users'', Loads (t.dropWhile isSpace) buffers' users' users'' →
      Loads (input ++ t) buffers users users'' := by
  induction h with
  | done heof => exact absurd hend (not_endsInRecord_of_eof heof)
  | @step input buffers users _ username password hcall hnames hloads ih =>
    by_cases hrest : (fscanf recordFormat input).rest = []
    · have happ := fscanf_lit_space_append (f := [.lit 34, .set [124, 34], .lit 34, .lit 58, .lit 34, .set [124, 34]])
        ((endsInRecord_last hrest).1 hend) hrest t
      have happ' : fscanf recordFormat (input ++ t) =
          { fscanf recordFormat input with rest := t.dropWhile isSpace } := happ
      rw [hrest] at hloads
      obtain rfl := loads_nil.unique hloads
      refine ⟨⟨some username, some password⟩, fun users'' h => .step ?_ (by rw [happ']; exact hnames) ?_⟩
      · rw [happ']
        exact hcall
      · rw [happ']
        exact h
    · obtain ⟨buffers', hbuffers'⟩ := ih ((endsInRecord_step hcall hrest).2 hend)
      have happ := fscanf_line hrest t
      refine ⟨buffers', fun users'' h => .step ?_ (by rw [happ]; exact hnames) ?_⟩
      · rw [happ]
        exact hcall
      · rw [happ]
        exact hbuffers' users'' h

/-- After a file that does not end in a whole record, the name of the first appended line is not loaded. -/
private theorem Loads.names_append (h : Loads input buffers users users') (hend : ¬ EndsInRecord input) {a : Account}
    {registered : List Account} (ha : Written a) (hcolon : colon ∉ a.1.bytes)
    (hwritten : ∀ a ∈ registered, Written a) {users'' : List User}
    (h'' : Loads (input ++ recordLines (a :: registered)) buffers users users'') :
    ∀ name ∈ users''.map User.name, name ∈ users'.map User.name ∨ name = [colon] := by
  obtain ⟨c, tail, hname⟩ := List.exists_cons_of_ne_nil ha.username_ne
  have hc : c ≠ 34 := by
    rintro rfl
    exact ha.plain 34 (by simp [hname]) stop_quote
  have hc' : c ≠ 58 := by
    rintro rfl
    exact hcolon (by simp [hname])
  obtain ⟨rest, hlines, hrest⟩ : ∃ rest, recordLines (a :: registered) = 10 :: 34 :: c :: rest ∧
      c :: rest = a.1.bytes ++ 34 :: 58 :: 34 :: (a.2.bytes ++ 34 :: recordLines registered) :=
    ⟨tail ++ 34 :: 58 :: 34 :: (a.2.bytes ++ 34 :: recordLines registered), by simp [recordLines_cons, hname],
      by simp [hname]⟩
  rw [hlines] at h''
  -- the call that takes the line break and the quote for the rest of a record
  have hcut : ∀ {input buffers users users''}, Unfinished input →
      Loads (input ++ 10 :: 34 :: c :: rest) buffers users users'' → (fscanf recordFormat input).converted ≠ [] ∧
        ∃ username password, assign buffers.username (fscanf recordFormat input).converted[0]? = some (some username) ∧
          ∀ name ∈ users''.map User.name,
            name ∈ (addUser users (loadedUser username password)).2.map User.name ∨ name = [colon] := by
    intro input buffers users users'' hunfinished h
    obtain ⟨hcall, hleft⟩ := fscanf_unfinished hunfinished hc hc' rest
    obtain ⟨username, password, hnames, hloads⟩ := h.cases_step hcall
    rcases hleft with ⟨b, tail, hb, heq⟩ | ⟨hconverted, hne, heq⟩
    · rw [heq] at hloads
      exact absurd hloads (not_loads_of_ne hb)
    · rw [heq, hrest] at hloads
      exact ⟨hne, username, password, hconverted ▸ (assign_of_readNames hnames).1,
        names_of_stray hwritten ha hloads⟩
  induction h with
  | done heof =>
    have hnone := (hcut (unfinished_of_inputFailure (inputFailure_of_isEOF heof)) h'').1
    simp only [Scan.isEOF, decide_eq_true_eq] at heof
    exact absurd heof.2 hnone
  | @step input buffers users _ username password hcall hnames hloads ih =>
    by_cases hused : (fscanf recordFormat input).rest = []
    · have hfailure : (fscanf recordFormat input).ending = .inputFailure := by
        cases hending : (fscanf recordFormat input).ending with
        | matched => exact absurd ((endsInRecord_last hused).2 hending) hend
        | mismatch => exact absurd hused (rest_ne_nil_of_mismatch hending)
        | inputFailure => rfl
      obtain ⟨-, username', password', hassign, hall⟩ := hcut (unfinished_of_inputFailure hfailure) h''
      rw [(assign_of_readNames hnames).1] at hassign
      obtain rfl := Option.some.inj (Option.some.inj hassign)
      rw [hused] at hloads
      obtain rfl := loads_nil.unique hloads
      rw [names_addUser_congr users (show (loadedUser username password).name = (loadedUser username password').name from rfl)]
      exact hall
    · have happ := fscanf_line hused (10 :: 34 :: c :: rest)
      obtain ⟨username', password', hnames', hloads'⟩ := h''.cases_step (by rw [happ]; exact hcall)
      rw [happ] at hnames' hloads'
      obtain ⟨rfl, rfl⟩ := Prod.mk.inj (Option.some.inj (hnames.symm.trans hnames'))
      exact ih (fun h => hend ((endsInRecord_step hcall hused).1 h)) hloads'

end Appended

/-! ### The file after some registrations -/

/-- Lines that can be read are loaded. -/
theorem loads_recordLines {registered : List Account} (hwritten : ∀ a ∈ registered, Written a ∧ Storable a)
    (buffers : NameBuffers) {users : List User} (hroom : users.length + registered.length ≤ maxUserCount)
    (hnames : (users.map User.name ++ registered.map fun a => a.1.bytes).Nodup) :
    ∃ users', Loads ((recordLines registered).dropWhile isSpace) buffers users users' ∧
      accounts users' = accounts users ++ registered := by
  induction registered generalizing buffers users with
  | nil => exact ⟨users, loads_nil, (List.append_nil _).symm⟩
  | cons a registered ih =>
    obtain ⟨hwrite, -, -, hfits⟩ := hwritten a (by simp)
    have hcall : fscanf recordFormat ((recordLines (a :: registered)).dropWhile isSpace) =
        ⟨[a.1.bytes, a.2.bytes], (recordLines registered).dropWhile isSpace, .matched⟩ := by
      rw [recordLines_cons, List.dropWhile_cons_of_pos (by decide), List.dropWhile_cons_of_neg (by decide)]
      exact fscanf_record hwrite.username_ne hwrite.password_ne hwrite.plain hwrite.plain' _
    let password : CStr maxPassword := ⟨a.2.bytes, a.2.nulFree, hfits⟩
    have hread : readNames buffers [a.1.bytes, a.2.bytes] = some (a.1, password) := by
      have husername : assign buffers.username (some a.1.bytes) = some (some a.1) := by
        simp only [assign, a.1.fits, ↓reduceIte, cstr_of_nulFree a.1.nulFree,
          CStr.ofBytes?_eq_some.2 (show a.1.bytes = a.1.bytes from rfl), Option.map_some]
      have hpassword : assign buffers.password (some a.2.bytes) = some (some password) := by
        simp only [assign, hfits, ↓reduceIte, cstr_of_nulFree a.2.nulFree,
          CStr.ofBytes?_eq_some.2 (show password.bytes = a.2.bytes from rfl), Option.map_some]
      simp only [readNames, List.getElem?_cons_zero, List.getElem?_cons_succ, husername, hpassword,
        Option.bind_eq_bind, Option.bind_some, Option.pure_def]
    simp only [List.length_cons] at hroom
    have hnew : (loadedUser a.1 password).name ∉ users.map User.name := by
      simp only [List.map_cons, List.nodup_append, List.mem_cons] at hnames
      exact fun hmem => hnames.2.2 _ hmem _ (Or.inl rfl) rfl
    have hadd := addUser_new (u := loadedUser a.1 password) (by omega) hnew
    have hroom' : (users ++ [createUser (loadedUser a.1 password)]).length + registered.length ≤ maxUserCount := by
      rw [List.length_append, List.length_singleton]
      omega
    obtain ⟨users', hloads, haccounts⟩ := ih (fun b hb => hwritten b (List.mem_cons_of_mem _ hb))
      ⟨some a.1, some password⟩ hroom' (by
        rw [List.map_append, List.append_assoc]
        exact hnames)
    refine ⟨users', .step (by rw [hcall]; exact Scan.isEOF_of_ne (by simp)) (by rw [hcall]; exact hread) ?_, ?_⟩
    · rw [hcall, hadd]
      exact hloads
    · rw [haccounts, Conferencing.accounts, List.map_append, List.append_assoc]
      rfl

/-- What has been registered is loaded again exactly when the file ended in a whole record and everything registered
can be loaded. -/
private theorem restart_iff {file : Bytes} {users : List User} {registered : List Account}
    (hload : SetUpDatabase file users)
    (htyped : ∀ a ∈ registered, TypedAccount a.1.bytes a.2.bytes)
    (hroom : users.length + registered.length ≤ maxUserCount)
    (hnames : (users.map User.name ++ registered.map fun a => a.1.bytes).Nodup) :
    (∃ users', SetUpDatabase (file ++ recordLines registered) users' ∧ accounts users' = accounts users ++ registered) ↔
      registered = [] ∨ EndsInRecord file ∧ ∀ a ∈ registered, Storable a := by
  have hloads : Loads file ⟨none, none⟩ [] users := loads_iff.2 hload
  constructor
  · rintro ⟨users', hload', haccounts⟩
    cases registered with
    | nil => exact Or.inl rfl
    | cons a registered =>
      right
      have hloads' : Loads _ ⟨none, none⟩ [] users' := loads_iff.2 hload'
      have hstorable : ∀ b ∈ a :: registered, Storable b := by
        intro b hb
        have hmem : b ∈ accounts users' := by
          rw [haccounts]
          exact List.mem_append_right _ hb
        obtain ⟨u, hu, rfl⟩ := List.mem_map.1 hmem
        exact hloads'.storable ⟨fun _ h => (nomatch h), fun _ h => (nomatch h)⟩ (fun _ h => (nomatch h)) u hu
      have hwritten : ∀ b ∈ a :: registered, Written b := fun b hb =>
        ⟨(htyped b hb).username_ne, (htyped b hb).password_ne, (hstorable b hb).1, (hstorable b hb).2.1⟩
      refine ⟨by_contra fun hend => ?_, hstorable⟩
      have hcolon := (htyped a (by simp)).colonFree
      have hname : a.1.bytes ∈ users'.map User.name := by
        have hmem : a ∈ accounts users' := by
          rw [haccounts]
          simp
        obtain ⟨u, hu, rfl⟩ := List.mem_map.1 hmem
        exact List.mem_map.2 ⟨u, hu, rfl⟩
      rcases hloads.names_append hend (hwritten a (by simp)) hcolon
        (fun b hb => hwritten b (List.mem_cons_of_mem _ hb)) hloads' _ hname with hold | heq
      · simp only [List.map_cons, List.nodup_append, List.mem_cons] at hnames
        exact hnames.2.2 _ hold _ (Or.inl rfl) rfl
      · rw [heq] at hcolon
        simp at hcolon
  · rintro (rfl | ⟨hend, hstorable⟩)
    · refine ⟨users, ?_, (List.append_nil _).symm⟩
      rw [show recordLines [] = [] from rfl, List.append_nil]
      exact hload
    · obtain ⟨buffers', happend⟩ := hloads.append hend (recordLines registered)
      obtain ⟨users', hlines, haccounts⟩ := loads_recordLines (fun a ha => ⟨⟨(htyped a ha).username_ne,
        (htyped a ha).password_ne, (hstorable a ha).1, (hstorable a ha).2.1⟩, hstorable a ha⟩) buffers' hroom hnames
      exact ⟨users', loads_iff.1 (happend users' hlines), haccounts⟩

/-! ### Runs -/

/-- What the server has stored since it loaded the file. -/
structure Stored (file : Bytes) (loaded : List User) (registered : List Account) (s : ServerState) : Prop where
  accounts_eq : accounts s.world.mem.users = accounts loaded ++ registered
  file_eq : s.world.mem.file = file ++ recordLines registered
  room : s.world.mem.users.length ≤ maxUserCount
  names : (s.world.mem.users.map User.name).Nodup

private theorem names_eq_accounts (users : List User) :
    users.map User.name = (accounts users).map fun a => a.1.bytes := by
  rw [List.map_map]
  rfl

theorem Loads.names {input : Bytes} {buffers : NameBuffers} {users users' : List User}
    (h : Loads input buffers users users') (hnodup : (users.map User.name).Nodup) : (users'.map User.name).Nodup := by
  induction h with
  | done _ => exact hnodup
  | step _ _ _ ih => exact ih (nodup_names_addUser hnodup)

section Stored

variable {file : Bytes} {loaded : List User} {registered : List Account} {s t : ServerState}

theorem Stored.changed (h : Stored file loaded registered s) (husers : Changed s.world.mem.users t.world.mem.users)
    (hfile : t.world.mem.file = s.world.mem.file) : Stored file loaded registered t := by
  have haccounts := husers.accounts
  refine ⟨haccounts.trans h.accounts_eq, hfile.trans h.file_eq, ?_, ?_⟩
  · rw [← husers.length_eq]
    exact h.room
  · rw [names_of_accounts haccounts]
    exact h.names

theorem Stored.registers (h : Stored file loaded registered s) {username : CStr maxName}
    {password : CStr maxPasswordLength} {socketFd : Nat} (hroom : s.world.mem.users.length < maxUserCount)
    (hnew : databaseSearchUser s.world.mem.users username.bytes = none)
    (husers : t.world.mem.users = s.world.mem.users ++ [registeredUser username password socketFd])
    (hfile : t.world.mem.file = s.world.mem.file ++ recordLine username.bytes password.bytes) :
    Stored file loaded (registered ++ [(username, password)]) t := by
  constructor
  · rw [husers, accounts, List.map_append, ← accounts, h.accounts_eq, List.append_assoc]
    rfl
  · rw [hfile, h.file_eq, List.append_assoc, recordLines, recordLines, List.flatMap_append]
    simp
  · rw [husers, List.length_append, List.length_singleton]
    exact hroom
  · rw [husers, List.map_append]
    exact nodup_append_new h.names hnew

private theorem stored_of_turn {e : Event} (h : Stored file loaded registered s) (hturn : Turn s e t) :
    ∃ registered, Stored file loaded registered t := by
  rcases hturn.stored with ⟨hchanged, hfile⟩ | ⟨username, password, socketFd, hroom, hnew, husers, hfile⟩
  · exact ⟨registered, h.changed hchanged hfile⟩
  · exact ⟨registered ++ [(username, password)], h.registers hroom hnew husers hfile⟩

/-- The server has just loaded the file. -/
theorem stored_started (hload : SetUpDatabase file loaded) {users : List User} (hload' : SetUpDatabase file users) :
    Stored file loaded [] (started file users) := by
  have hloads : Loads file ⟨none, none⟩ [] loaded := loads_iff.2 hload
  obtain rfl := hloads.unique (loads_iff.2 hload')
  exact ⟨(List.append_nil _).symm, (List.append_nil _).symm, hloads.length (Nat.zero_le _),
    hloads.names List.nodup_nil⟩

end Stored

theorem stored_of_reachable {file : Bytes} {loaded : List User} (hload : SetUpDatabase file loaded) {s : ServerState}
    (hr : Reachable (serverOn file) s) : ∃ registered, Stored file loaded registered s := by
  induction hr with
  | init h =>
    obtain ⟨users, hload', rfl⟩ := h
    exact ⟨[], stored_started hload hload'⟩
  | step _ hst ih =>
    obtain ⟨registered, h⟩ := ih
    exact stored_of_turn h (ServerState.turn hst)

/-- The accounts registered since the server loaded a table of `loaded` records. -/
def registeredSince (loaded : Nat) (s : ServerState) : List Account := (accounts s.world.mem.users).drop loaded

/-- After a restart the server has the same accounts, in the same order. -/
def SurvivesRestart (s : ServerState) : Prop :=
  ∃ users, SetUpDatabase s.world.mem.file users ∧ accounts users = accounts s.world.mem.users

/-- Durable accounts: in every run on a file, whatever has been registered under names and passwords that pass the
client's checks, the accounts survive a restart exactly when nothing has been registered, or the file ended in a whole
record and everything registered can be loaded. -/
theorem durable_accounts {file : Bytes} {loaded : List User} (hload : SetUpDatabase file loaded) {s : ServerState}
    (hr : Reachable (serverOn file) s)
    (htyped : ∀ a ∈ registeredSince loaded.length s, TypedAccount a.1.bytes a.2.bytes) :
    SurvivesRestart s ↔ registeredSince loaded.length s = [] ∨
      EndsInRecord file ∧ ∀ a ∈ registeredSince loaded.length s, Storable a := by
  obtain ⟨registered, hstored⟩ := stored_of_reachable hload hr
  have hlength : (accounts loaded).length = loaded.length := List.length_map _
  have hregistered : registeredSince loaded.length s = registered := by
    rw [registeredSince, hstored.accounts_eq, ← hlength, List.drop_left]
  rw [hregistered] at htyped ⊢
  have hroom := hstored.room
  have hnames := hstored.names
  rw [names_eq_accounts, hstored.accounts_eq, List.map_append, ← names_eq_accounts] at hnames
  have htotal := congrArg List.length hstored.accounts_eq
  rw [List.length_append, hlength, List.length_map] at htotal
  rw [SurvivesRestart, hstored.file_eq, hstored.accounts_eq]
  exact restart_iff hload htyped (by omega) hnames

theorem durable_accounts_bob : ∃ loaded s, SetUpDatabase annFile loaded ∧ loaded.length = 1 ∧
    runFrom ServerState.next (started annFile loaded) [.accept 3 ⟨[], by decide, by decide⟩,
      .recv 3 (ascii "13:3:bob:xyz")] = some s ∧
    (SurvivesRestart s ↔ registeredSince 1 s = [] ∨ EndsInRecord annFile ∧ ∀ a ∈ registeredSince 1 s, Storable a) := by
  let loaded : List User := [createUser (loadedUser ⟨ascii "ann", by decide, by decide⟩ ⟨ascii "pw", by decide, by decide⟩)]
  let events : List Event := [.accept 3 ⟨[], by decide, by decide⟩, .recv 3 (ascii "13:3:bob:xyz")]
  have hload : SetUpDatabase annFile loaded := ⟨2, by decide⟩
  obtain ⟨s, hs⟩ : ∃ s, runFrom ServerState.next (started annFile loaded) events = some s :=
    Option.isSome_iff_exists.1 (by decide)
  have hregistered : registeredSince 1 s =
      [(⟨ascii "bob", by decide, by decide⟩, ⟨ascii "xyz", by decide, by decide⟩)] := by
    have : (runFrom ServerState.next (started annFile loaded) events).map (registeredSince 1) =
        some [(⟨ascii "bob", by decide, by decide⟩, ⟨ascii "xyz", by decide, by decide⟩)] := by decide
    rw [hs] at this
    exact Option.some.inj this
  have hr : Reachable (serverOn annFile) s := Reachable.runFrom (fun _ _ _ h => h) (.init ⟨loaded, hload, rfl⟩) hs
  refine ⟨loaded, s, hload, rfl, hs, durable_accounts hload hr fun a ha => ?_⟩
  rw [show loaded.length = 1 from rfl, hregistered, List.mem_singleton] at ha
  rw [ha]
  exact ⟨by decide, by decide, by decide, by decide, by decide, by decide, by decide⟩

/-- `bob` registers on the empty file.  The line break at the start of the file matches nothing, and `set_up_database`
never ends. -/
theorem durable_accounts_fails : ¬ ∀ file loaded s, SetUpDatabase file loaded → Reachable (serverOn file) s →
    (∀ a ∈ registeredSince loaded.length s, TypedAccount a.1.bytes a.2.bytes) → SurvivesRestart s := by
  intro h
  let events : List Event := [.accept 3 ⟨[], by decide, by decide⟩, .recv 3 (ascii "13:3:bob:xyz")]
  have hload : SetUpDatabase [] [] := ⟨1, by decide⟩
  obtain ⟨s, hs⟩ : ∃ s, afterEvents events = some s := Option.isSome_iff_exists.1 (by decide)
  have hr : Reachable (serverOn []) s := Reachable.runFrom (fun _ _ _ h => h) (.init ⟨[], hload, rfl⟩) hs
  have hregistered : registeredSince 0 s =
      [(⟨ascii "bob", by decide, by decide⟩, ⟨ascii "xyz", by decide, by decide⟩)] :=
    of_afterEvents (f := registeredSince 0) hs (by decide)
  obtain ⟨users, hload', -⟩ := h [] [] s hload hr fun a ha => by
    rw [show ([] : List User).length = 0 from rfl, hregistered, List.mem_singleton] at ha
    rw [ha]
    exact ⟨by decide, by decide, by decide, by decide, by decide, by decide, by decide⟩
  have hfile : s.world.mem.file = recordLine (ascii "bob") (ascii "xyz") :=
    of_afterEvents (f := fun s => s.world.mem.file) hs (by decide)
  rw [hfile] at hload'
  exact not_loads_of_ne (by decide) (loads_iff.2 hload')

end Conferencing
