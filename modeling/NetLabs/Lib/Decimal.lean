import NetLabs.Lib.CText

/-!
# Decimal fields: `printf("%d")` and `atoi`

An unsigned 32-bit number printed with `%d` (so as a signed `int`) and read back with `atoi`: the number survives
(`atoi_printD`), whatever stands behind the field (`atoi_append`).  A field that has lost bytes at its front never
spells the same number, unless the only byte lost is the first one (`atoi_drop_printD`).

A value outside `int` is undefined for `atoi`; here it is reduced modulo `2^32`, as by a conversion from `long`.
-/

namespace CText

/-! ### Digits -/

/-- The character of a decimal digit. -/
def digit (d : Nat) : Byte := UInt8.ofNat (48 + d)

def isDigit (b : Byte) : Bool := 48 ≤ b.toNat && b.toNat ≤ 57

/-- `isspace`. -/
def isSpace (b : Byte) : Bool := b = 32 || (9 ≤ b.toNat && b.toNat ≤ 13)

/-- The decimal digits of a number, most significant first. -/
def decimal (n : Nat) : Bytes := (Nat.toDigits 10 n).map fun c => UInt8.ofNat c.toNat

/-- The value of a text of decimal digits. -/
def digitsVal (s : Bytes) : Nat := s.foldl (fun v b => 10 * v + (b.toNat - 48)) 0

private theorem ofNat_digitChar {d : Nat} (h : d < 10) : UInt8.ofNat (Nat.digitChar d).toNat = digit d := by
  have : d = 0 ∨ d = 1 ∨ d = 2 ∨ d = 3 ∨ d = 4 ∨ d = 5 ∨ d = 6 ∨ d = 7 ∨ d = 8 ∨ d = 9 := by omega
  rcases this with rfl | rfl | rfl | rfl | rfl | rfl | rfl | rfl | rfl | rfl <;> rfl

/-- The last digit comes off the end. -/
theorem decimal_eq (n : Nat) :
    decimal n = (if n < 10 then [] else decimal (n / 10)) ++ [digit (n % 10)] := by
  unfold decimal
  rw [Nat.toDigits_eq_if (by omega)]
  split
  · rename_i h
    simp [ofNat_digitChar h, Nat.mod_eq_of_lt h]
  · simp [ofNat_digitChar (Nat.mod_lt n (by omega : 0 < 10))]

theorem toNat_digit {d : Nat} (h : d < 10) : (digit d).toNat = 48 + d := by
  simp only [digit, UInt8.toNat_ofNat']
  omega

theorem isDigit_digit {d : Nat} (h : d < 10) : isDigit (digit d) = true := by
  simp only [isDigit, toNat_digit h, Bool.and_eq_true, decide_eq_true_eq]
  omega

theorem isDigit_of_mem_decimal (n : Nat) : ∀ b ∈ decimal n, isDigit b = true := by
  induction n using Nat.strong_induction_on with
  | _ n ih =>
    intro b hb
    rw [decimal_eq] at hb
    rcases List.mem_append.1 hb with hb | hb
    · split at hb
      · cases hb
      · exact ih (n / 10) (by omega) b hb
    · rw [List.mem_singleton.1 hb]
      exact isDigit_digit (Nat.mod_lt n (by omega))

theorem digitsVal_append_singleton (s : Bytes) (b : Byte) :
    digitsVal (s ++ [b]) = 10 * digitsVal s + (b.toNat - 48) := by
  simp [digitsVal, List.foldl_append]

theorem digitsVal_decimal (n : Nat) : digitsVal (decimal n) = n := by
  induction n using Nat.strong_induction_on with
  | _ n ih =>
    rw [decimal_eq, digitsVal_append_singleton, toNat_digit (Nat.mod_lt n (by omega))]
    split
    · have : digitsVal [] = 0 := rfl
      omega
    · rw [ih (n / 10) (by omega)]
      omega

theorem decimal_ne_nil (n : Nat) : decimal n ≠ [] := by
  rw [decimal_eq]; simp

theorem length_decimal_le {n k : Nat} (hk : 0 < k) (h : n < 10 ^ k) : (decimal n).length ≤ k := by
  rw [decimal, List.length_map]
  exact (Nat.length_toDigits_le_iff (by omega) hk).2 h

/-- A positive number has no digit to spare. -/
theorem pow_length_decimal_le {n : Nat} (hn : 0 < n) : 10 ^ ((decimal n).length - 1) ≤ n := by
  by_cases h1 : (decimal n).length = 1
  · rw [h1]; exact hn
  · by_contra hlt
    have hpos : 0 < (decimal n).length := List.length_pos_iff.2 (decimal_ne_nil n)
    have := length_decimal_le (k := (decimal n).length - 1) (by omega) (Nat.lt_of_not_le hlt)
    omega

theorem digitsVal_lt {s : Bytes} (hs : ∀ b ∈ s, isDigit b = true) : digitsVal s < 10 ^ s.length := by
  induction s using List.reverseRecOn with
  | nil => decide
  | append_singleton s b ih =>
    have hb := hs b (by simp)
    have := ih fun x hx => hs x (by simp [hx])
    simp only [isDigit, Bool.and_eq_true, decide_eq_true_eq] at hb
    rw [digitsVal_append_singleton, List.length_append, List.length_singleton, Nat.pow_succ]
    omega

/-! ### `%d` and `atoi` -/

/-- `printf("%d", v)` of an unsigned number: it is printed as the `int` with the same bits. -/
def printD (v : UInt32) : Bytes :=
  if v.toNat < 2 ^ 31 then decimal v.toNat else 45 :: decimal (2 ^ 32 - v.toNat)

/-- `strtol(s, NULL, 10)`: white space, an optional sign, then digits up to the first other byte. -/
def strtol (s : Bytes) : Int :=
  match s.dropWhile isSpace with
  | [] => 0
  | b :: s =>
    if b = 45 then -(digitsVal (s.takeWhile isDigit) : Int)
    else if b = 43 then digitsVal (s.takeWhile isDigit)
    else digitsVal ((b :: s).takeWhile isDigit)

/-- `(unsigned int) atoi(s)`. -/
def atoi (s : Bytes) : UInt32 := UInt32.ofInt (strtol s)

/-- What `strtol` leaves unread. -/
def strtolEnd (s : Bytes) : Bytes :=
  match s.dropWhile isSpace with
  | [] => []
  | b :: s => if b = 45 ∨ b = 43 then s.dropWhile isDigit else (b :: s).dropWhile isDigit

/-- `(unsigned int) atoi(a)` of an array: undefined when no byte of the array ends the number. -/
def CArray.atoi? {n : Nat} (a : CArray n) : Option UInt32 :=
  if strtolEnd a.bytes = [] then none else some (atoi a.bytes)

/-- A byte of a printed number: a digit or the minus sign. -/
theorem mem_printD {v : UInt32} {b : Byte} (hb : b ∈ printD v) : isDigit b = true ∨ b = 45 := by
  unfold printD at hb
  split at hb
  · exact Or.inl (isDigit_of_mem_decimal _ b hb)
  · rcases List.mem_cons.1 hb with rfl | hb
    · exact Or.inr rfl
    · exact Or.inl (isDigit_of_mem_decimal _ b hb)

theorem not_mem_printD {v : UInt32} {b : Byte} (hd : isDigit b = false) (hm : b ≠ 45) : b ∉ printD v := by
  intro hb
  rcases mem_printD hb with h | h
  · rw [hd] at h; cases h
  · exact hm h

theorem printD_ne_nil (v : UInt32) : printD v ≠ [] := by
  unfold printD
  split
  · exact decimal_ne_nil _
  · simp

theorem length_printD_le (v : UInt32) : (printD v).length ≤ 11 := by
  unfold printD
  have := v.toNat_lt
  split
  · exact Nat.le_succ_of_le (length_decimal_le (k := 10) (by omega) (by omega))
  · have := length_decimal_le (n := 2 ^ 32 - v.toNat) (k := 10) (by omega) (by omega)
    simp only [List.length_cons]
    omega

/-- A small number takes no more characters than its bound has zeros. -/
theorem length_printD_of_lt {v : UInt32} {k : Nat} (hk : 0 < k) (h : v.toNat < 10 ^ k) (h31 : v.toNat < 2 ^ 31) :
    (printD v).length ≤ k := by
  rw [printD, if_pos h31]
  exact length_decimal_le hk h

private theorem isSpace_eq_false_of_isDigit {b : Byte} (h : isDigit b = true) : isSpace b = false := by
  simp only [isDigit, Bool.and_eq_true, decide_eq_true_eq] at h
  have h32 : b ≠ 32 := by rintro rfl; simp at h
  simp only [isSpace, h32, decide_false, Bool.false_or, Bool.and_eq_false_imp, decide_eq_true_eq,
    decide_eq_false_iff_not]
  omega

/-- What ends a number: the end of the text, or a byte that neither continues nor starts a number. -/
def Closes (rest : Bytes) : Prop :=
  ∀ b, rest.head? = some b → isDigit b = false ∧ isSpace b = false ∧ b ≠ 45 ∧ b ≠ 43

theorem closes_nul (rest : Bytes) : Closes (0 :: rest) := by
  intro b hb
  simp only [List.head?_cons, Option.some.injEq] at hb
  subst hb
  decide

private theorem takeWhile_append_closes {rest : Bytes} (hrest : Closes rest) (s : Bytes) :
    (s ++ rest).takeWhile isDigit = s.takeWhile isDigit := by
  induction s with
  | nil =>
    cases rest with
    | nil => rfl
    | cons b rest => simp [(hrest b rfl).1]
  | cons b s ih =>
    rw [List.cons_append, List.takeWhile_cons, List.takeWhile_cons, ih]

/-- The number read does not depend on what stands behind its end. -/
theorem strtol_append {rest : Bytes} (hrest : Closes rest) (s : Bytes) : strtol (s ++ rest) = strtol s := by
  induction s with
  | nil =>
    cases rest with
    | nil => rfl
    | cons b rest =>
      obtain ⟨hd, hsp, h45, h43⟩ := hrest b rfl
      simp [strtol, hsp, h45, h43, hd, digitsVal]
  | cons b s ih =>
    by_cases hsp : isSpace b = true
    · simpa [strtol, hsp] using ih
    · have hdrop : ∀ t, (b :: t).dropWhile isSpace = b :: t := fun t => by simp [hsp]
      simp only [strtol, List.cons_append, hdrop, takeWhile_append_closes hrest]
      rw [← List.cons_append, takeWhile_append_closes hrest]

theorem atoi_append {rest : Bytes} (hrest : Closes rest) (s : Bytes) : atoi (s ++ rest) = atoi s := by
  rw [atoi, strtol_append hrest, atoi]

/-- Reading a field that was scanned into an array and closed with a NUL. -/
theorem atoi_content {n : Nat} {content : CArray n} {f : Bytes} (h : 0 + (f ++ [0]).length ≤ n) :
    atoi (content.write 0 (f ++ [0]) h).bytes = atoi f := by
  rw [CArray.bytes_write_zero, List.append_assoc, List.singleton_append, atoi_append (closes_nul _)]

/-- Reading digits: the number they spell. -/
theorem strtol_digits {s : Bytes} (hs : ∀ b ∈ s, isDigit b = true) : strtol s = digitsVal s := by
  have htake : s.takeWhile isDigit = s := List.takeWhile_eq_self_iff.2 hs
  cases s with
  | nil => rfl
  | cons b s =>
    have hb := hs b (by simp)
    have h45 : b ≠ 45 := by rintro rfl; exact absurd hb (by decide)
    have h43 : b ≠ 43 := by rintro rfl; exact absurd hb (by decide)
    simp only [strtol, List.dropWhile_cons, isSpace_eq_false_of_isDigit hb, Bool.false_eq_true, ↓reduceIte, h45, h43]
    rw [htake]

/-- Reading a minus sign and digits: the negated number. -/
theorem strtol_neg {s : Bytes} (hs : ∀ b ∈ s, isDigit b = true) : strtol (45 :: s) = -(digitsVal s : Int) := by
  have hsp : isSpace 45 = false := by decide
  simp only [strtol, List.dropWhile_cons, hsp, Bool.false_eq_true, ↓reduceIte, List.takeWhile_eq_self_iff.2 hs]

private theorem toNat_ofInt_natCast (n : Nat) : (UInt32.ofInt n).toNat = n % 2 ^ 32 := by
  simp only [UInt32.ofInt, UInt32.toNat_ofNat']
  omega

private theorem toNat_ofInt_neg {n : Nat} (h0 : 0 < n) (h : n < 2 ^ 32) :
    (UInt32.ofInt (-(n : Int))).toNat = 2 ^ 32 - n := by
  simp only [UInt32.ofInt, UInt32.toNat_ofNat']
  omega

/-- A printed number is read back. -/
theorem atoi_printD (v : UInt32) : atoi (printD v) = v := by
  apply UInt32.toNat_inj.1
  have hlt := v.toNat_lt
  unfold atoi printD
  split
  · rw [strtol_digits (isDigit_of_mem_decimal _), digitsVal_decimal, toNat_ofInt_natCast]
    omega
  · rw [strtol_neg (isDigit_of_mem_decimal _), digitsVal_decimal, toNat_ofInt_neg (by omega) (by omega)]
    omega

section Terminated

variable {s : Bytes} {b : Byte}

private theorem takeWhile_dropWhile_digits (rest : Bytes) (hs : ∀ x ∈ s, isDigit x = true) (hb : isDigit b = false) :
    (s ++ b :: rest).takeWhile isDigit = s ∧ (s ++ b :: rest).dropWhile isDigit = b :: rest := by
  rw [List.takeWhile_append_of_pos hs, List.dropWhile_append_of_pos hs]
  simp [hb]

/-- Any byte that is not a digit ends a printed number, a white space too. -/
theorem strtol_printD_append (rest : Bytes) (v : UInt32) (hb : isDigit b = false) :
    strtol (printD v ++ b :: rest) = strtol (printD v) ∧ strtolEnd (printD v ++ b :: rest) = b :: rest := by
  unfold printD
  split
  · have hs := isDigit_of_mem_decimal v.toNat
    have hne := decimal_ne_nil v.toNat
    generalize decimal v.toNat = s at hs hne
    rw [strtol_digits hs]
    obtain ⟨htake, hdrop⟩ := takeWhile_dropWhile_digits rest hs hb
    cases s with
    | nil => exact absurd rfl hne
    | cons x s =>
      have hx := hs x (by simp)
      have h45 : x ≠ 45 := by rintro rfl; exact absurd hx (by decide)
      have h43 : x ≠ 43 := by rintro rfl; exact absurd hx (by decide)
      rw [List.cons_append] at htake hdrop ⊢
      simp only [strtol, strtolEnd, List.dropWhile_cons, isSpace_eq_false_of_isDigit hx, Bool.false_eq_true, ↓reduceIte,
        h45, h43, or_self]
      rw [htake]
      exact ⟨rfl, by simpa only [List.dropWhile_cons] using hdrop⟩
  · have hs := isDigit_of_mem_decimal (2 ^ 32 - v.toNat)
    rw [strtol_neg hs]
    obtain ⟨htake, hdrop⟩ := takeWhile_dropWhile_digits rest hs hb
    have hsp : isSpace 45 = false := by decide
    simp only [strtol, strtolEnd, List.cons_append, List.dropWhile_cons, hsp, Bool.false_eq_true, ↓reduceIte, true_or]
    rw [htake]
    exact ⟨rfl, hdrop⟩

/-- A printed number in an array is read back over whatever stands behind the byte that closes it. -/
theorem CArray.atoi?_write_printD {n : Nat} (a : CArray n) (v : UInt32) (hb : isDigit b = false)
    (h : 0 + (printD v ++ [b]).length ≤ n) : (a.write 0 (printD v ++ [b]) h).atoi? = some v := by
  obtain ⟨hval, hend⟩ := strtol_printD_append (a.bytes.drop (printD v ++ [b]).length) v hb
  rw [atoi?, CArray.bytes_write_zero, List.append_assoc, List.singleton_append, hend, if_neg (List.cons_ne_nil _ _),
    atoi, hval]
  exact congrArg some (atoi_printD v)

end Terminated

/-- Without its first `k` digits a positive number gets smaller. -/
private theorem digitsVal_drop_lt {n k : Nat} (hk : 0 < k) (hn : 0 < n) : digitsVal ((decimal n).drop k) < n := by
  have hlt := digitsVal_lt (s := (decimal n).drop k) fun b hb =>
    isDigit_of_mem_decimal n b (List.mem_of_mem_drop hb)
  have hpow : 10 ^ ((decimal n).drop k).length ≤ 10 ^ ((decimal n).length - 1) := by
    apply Nat.pow_le_pow_right (by omega)
    rw [List.length_drop]
    omega
  exact Nat.lt_of_lt_of_le hlt (hpow.trans (pow_length_decimal_le hn))

private theorem decimal_zero : decimal 0 = [digit 0] := by
  rw [decimal_eq]; rfl

/-- A printed number whose first bytes are missing spells the same number only when one byte is missing. -/
theorem atoi_drop_printD {v : UInt32} {k : Nat} (hk : 0 < k) (hle : k ≤ (printD v).length)
    (h : atoi ((printD v).drop k) = v) : k = 1 := by
  have hlt := v.toNat_lt
  have hv := congrArg UInt32.toNat h
  unfold atoi at hv
  unfold printD at hv hle
  split at hv
  · rename_i h31
    rw [if_pos h31] at hle
    have hdig : ∀ b ∈ (decimal v.toNat).drop k, isDigit b = true := fun b hb =>
      isDigit_of_mem_decimal _ b (List.mem_of_mem_drop hb)
    rw [strtol_digits hdig, toNat_ofInt_natCast] at hv
    by_cases h0 : v.toNat = 0
    · rw [h0, decimal_zero] at hle
      exact Nat.le_antisymm hle hk
    · have := digitsVal_drop_lt hk (Nat.pos_of_ne_zero h0)
      rw [Nat.mod_eq_of_lt (by omega)] at hv
      omega
  · rename_i h31
    rw [if_neg h31] at hle
    obtain ⟨j, rfl⟩ : ∃ j, k = j + 1 := ⟨k - 1, by omega⟩
    rw [List.drop_succ_cons] at hv
    have hdig : ∀ b ∈ (decimal (2 ^ 32 - v.toNat)).drop j, isDigit b = true := fun b hb =>
      isDigit_of_mem_decimal _ b (List.mem_of_mem_drop hb)
    rw [strtol_digits hdig, toNat_ofInt_natCast] at hv
    rcases Nat.eq_zero_or_pos j with rfl | hj
    · rfl
    · -- the value read and the magnitude of `v` would add up to `2 ^ 32`
      have := digitsVal_drop_lt (n := 2 ^ 32 - v.toNat) hj (by omega)
      rw [Nat.mod_eq_of_lt (by omega)] at hv
      omega

end CText
