import Mathlib

/-!
# Bytes, C arrays and C strings

Fixed-size byte arrays (`CArray n`) whose every access is checked, C strings that fit an array (`CStr n`), and the
two loops with which C programs take texts apart: scanning up to a delimiter (`scanField`) and copying a counted
number of bytes (`copyLoop`).  An access outside the array makes the whole computation `none`.

The effect of every write is one list operation, `splice l i s` (the bytes `s` written over `l` from position `i`);
`splice_splice` joins consecutive writes, so a loop's result is one splice.
-/

namespace CText

abbrev Byte := UInt8
abbrev Bytes := List UInt8

/-- The bytes of a text literal. -/
def ascii (s : String) : Bytes := s.toList.map fun c => UInt8.ofNat c.toNat

/-- The C string at the start of a block of memory: the bytes before the first NUL. -/
def cstr (l : Bytes) : Bytes := l.takeWhile (· ≠ 0)

/-! ### Splicing -/

/-- The bytes `l` with `s` written over them from position `i`. -/
def splice (l : Bytes) (i : Nat) (s : Bytes) : Bytes := l.take i ++ s ++ l.drop (i + s.length)

theorem length_splice {l s : Bytes} {i : Nat} (h : i + s.length ≤ l.length) :
    (splice l i s).length = l.length := by
  simp only [splice, List.length_append, List.length_take, List.length_drop]
  omega

theorem splice_nil (l : Bytes) (i : Nat) : splice l i [] = l := by
  simp [splice]

theorem set_eq_splice {l : Bytes} {i : Nat} {b : Byte} (h : i < l.length) : l.set i b = splice l i [b] := by
  rw [List.set_eq_take_append_cons_drop, if_pos h]
  simp [splice]

theorem splice_splice {l s t : Bytes} {i : Nat} (h : i + s.length ≤ l.length) :
    splice (splice l i s) (i + s.length) t = splice l i (s ++ t) := by
  have hlen : (l.take i).length = i := by rw [List.length_take]; omega
  have hpre : (l.take i ++ s).length = i + s.length := by rw [List.length_append, hlen]
  have htake : (splice l i s).take (i + s.length) = l.take i ++ s := by
    rw [splice, ← hpre, List.take_left]
  have hdrop : (splice l i s).drop (i + s.length + t.length) = l.drop (i + (s ++ t).length) := by
    rw [splice, ← List.drop_drop, ← hpre, List.drop_left, List.drop_drop, hpre, List.length_append, Nat.add_assoc]
  rw [splice, htake, hdrop, splice]
  simp only [List.append_assoc]

theorem take_splice {l s : Bytes} {i : Nat} (h : i ≤ l.length) : (splice l i s).take i = l.take i := by
  have hlen : (l.take i).length = i := by rw [List.length_take]; omega
  rw [splice, List.append_assoc, List.take_append_of_le_length (by omega), List.take_of_length_le (by omega)]

/-- What is behind the bytes written stays. -/
theorem drop_splice {l s : Bytes} {i k : Nat} (hi : i ≤ l.length) (hk : i + s.length ≤ k) :
    (splice l i s).drop k = l.drop k := by
  have hlen : (l.take i ++ s).length = i + s.length := by
    rw [List.length_append, List.length_take, Nat.min_eq_left hi]
  rw [splice, List.drop_append, hlen, List.drop_drop, List.drop_of_length_le (by omega), List.nil_append,
    Nat.add_sub_cancel' hk]

theorem splice_zero {l s : Bytes} : splice l 0 s = s ++ l.drop s.length := by
  simp [splice]

/-- Two writes, the second where the first one ended, however long the block is. -/
theorem splice_zero_append (l s t : Bytes) : splice (splice l 0 s) s.length t = splice l 0 (s ++ t) := by
  rw [splice_zero, splice_zero, splice, List.take_left, ← List.drop_drop, List.drop_left, List.drop_drop,
    List.length_append, List.append_assoc]

/-! ### The C string at the start of a block -/

theorem cstr_append_nul {s rest : Bytes} (hs : (0 : Byte) ∉ s) : cstr (s ++ 0 :: rest) = s := by
  rw [cstr, List.takeWhile_append_of_pos]
  · simp
  · intro b hb
    have : b ≠ 0 := fun h => hs (h ▸ hb)
    simpa using this

theorem cstr_of_nulFree {s : Bytes} (hs : (0 : Byte) ∉ s) : cstr s = s := by
  rw [cstr, List.takeWhile_eq_self_iff]
  intro b hb
  have : b ≠ 0 := fun h => hs (h ▸ hb)
  simpa using this

theorem nulFree_cstr (l : Bytes) : (0 : Byte) ∉ cstr l := by
  intro h
  have := List.mem_takeWhile_imp h
  simp at this

/-- A block that holds a NUL is its C string, the NUL and the rest. -/
theorem eq_cstr_append {l : Bytes} (h : (0 : Byte) ∈ l) : ∃ rest, l = cstr l ++ 0 :: rest := by
  induction l with
  | nil => cases h
  | cons b l ih =>
    by_cases hb : b = 0
    · subst hb
      exact ⟨l, by simp [cstr]⟩
    · obtain ⟨rest, hrest⟩ := ih ((List.mem_cons.1 h).resolve_left fun e => hb e.symm)
      refine ⟨rest, ?_⟩
      have hcons : cstr (b :: l) = b :: cstr l := by simp [cstr, hb]
      rw [hcons, List.cons_append, ← hrest]

theorem length_cstr_lt {l : Bytes} (h : (0 : Byte) ∈ l) : (cstr l).length < l.length := by
  obtain ⟨rest, hrest⟩ := eq_cstr_append h
  have := congrArg List.length hrest
  simp only [List.length_append, List.length_cons] at this
  omega

/-! ### Arrays -/

/-- A C array of `n` bytes. -/
@[ext] structure CArray (n : Nat) where
  bytes : Bytes
  size_eq : bytes.length = n
  deriving DecidableEq

namespace CArray

variable {n : Nat}

/-- `memset(a, 0, n)`. -/
def zero (n : Nat) : CArray n := ⟨List.replicate n 0, List.length_replicate⟩

/-- The array with `s` written over it from position `i`. -/
def write (a : CArray n) (i : Nat) (s : Bytes) (h : i + s.length ≤ n) : CArray n :=
  ⟨splice a.bytes i s, by rw [length_splice (by rw [a.size_eq]; exact h), a.size_eq]⟩

/-- `a[i] = b`, undefined outside the array. -/
def store (a : CArray n) (i : Nat) (b : Byte) : Option (CArray n) :=
  if h : i < n then some ⟨a.bytes.set i b, by rw [List.length_set, a.size_eq]⟩ else none

/-- `strcpy(a, src)` from the memory `src`: undefined when the C string does not end or does not fit. -/
def strcpy (a : CArray n) (src : Bytes) : Option (CArray n) :=
  if h : (0 : Byte) ∈ src ∧ (cstr src).length < n then
    some (a.write 0 (cstr src ++ [0]) (by simp; omega))
  else none

/-- `strcat(a, src)`: the C string of `src` replaces the NUL that closes the one in `a`. -/
def strcat (a : CArray n) (src : Bytes) : Option (CArray n) :=
  if h : (0 : Byte) ∈ a.bytes ∧ (0 : Byte) ∈ src ∧ (cstr a.bytes).length + (cstr src).length < n then
    some (a.write (cstr a.bytes).length (cstr src ++ [0]) (by simp; omega))
  else none

theorem store_eq_write (a : CArray n) {i : Nat} (b : Byte) (h : i < n) :
    a.store i b = some (a.write i [b] (by simp; omega)) := by
  simp only [store, h, ↓reduceDIte, write, set_eq_splice (show i < a.bytes.length by rw [a.size_eq]; exact h)]

theorem store_eq_none (a : CArray n) {i : Nat} (b : Byte) (h : n ≤ i) : a.store i b = none := by
  simp [store, Nat.not_lt.2 h]

theorem write_write (a : CArray n) {i : Nat} {s t : Bytes} (h : i + s.length ≤ n)
    (h' : i + s.length + t.length ≤ n) :
    (a.write i s h).write (i + s.length) t h' = a.write i (s ++ t) (by simp; omega) := by
  ext1
  exact splice_splice (by rw [a.size_eq]; exact h)

theorem write_nil (a : CArray n) {i : Nat} (h : i + ([] : Bytes).length ≤ n) : a.write i [] h = a := by
  ext1
  exact splice_nil _ _

theorem bytes_write_zero (a : CArray n) {s : Bytes} (h : 0 + s.length ≤ n) :
    (a.write 0 s h).bytes = s ++ a.bytes.drop s.length := splice_zero

/-- Writing at the start of a zeroed array. -/
theorem bytes_zero_write {s : Bytes} (h : 0 + s.length ≤ n) :
    ((zero n).write 0 s h).bytes = s ++ List.replicate (n - s.length) 0 := by
  rw [bytes_write_zero]
  simp [zero]

/-- In a zeroed array a text is closed without its NUL being written. -/
theorem zero_write_nul {s : Bytes} (h : 0 + (s ++ [0]).length ≤ n) :
    (zero n).write 0 (s ++ [0]) h = (zero n).write 0 s (by simp at h; omega) := by
  ext1
  rw [bytes_zero_write, bytes_zero_write, List.append_assoc]
  simp only [List.length_append, List.length_singleton, Nat.zero_add] at h ⊢
  obtain ⟨k, hk⟩ : ∃ k, n - s.length = k + 1 := ⟨n - s.length - 1, by omega⟩
  rw [hk, show n - (s.length + 1) = k by omega, List.replicate_succ]
  rfl

end CArray

/-! ### C strings that fit an array -/

/-- A C string that fits, with its NUL, an array of `n` bytes. -/
@[ext] structure CStr (n : Nat) where
  bytes : Bytes
  nulFree : (0 : Byte) ∉ bytes
  fits : bytes.length < n
  deriving DecidableEq

namespace CStr

variable {n : Nat}

/-- The memory of a C string, closing NUL included. -/
def mem (s : CStr n) : Bytes := s.bytes ++ [0]

/-- `strcpy` into an array of `n` bytes: undefined when the text does not fit. -/
def ofBytes? (n : Nat) (s : Bytes) : Option (CStr n) :=
  if h : (0 : Byte) ∉ s ∧ s.length < n then some ⟨s, h.1, h.2⟩ else none

/-- `strcpy` into an array of `k` bytes. -/
def copy? {m : Nat} (k : Nat) (s : CStr m) : Option (CStr k) := ofBytes? k s.bytes

/-- The same text in an array that is at least as large. -/
def widen {m : Nat} (s : CStr m) (h : m ≤ n) : CStr n := ⟨s.bytes, s.nulFree, Nat.lt_of_lt_of_le s.fits h⟩

@[simp] theorem bytes_widen {m : Nat} (s : CStr m) (h : m ≤ n) : (s.widen h).bytes = s.bytes := rfl

theorem ofBytes?_eq_some {s : Bytes} {t : CStr n} : ofBytes? n s = some t ↔ t.bytes = s := by
  constructor
  · intro h
    unfold ofBytes? at h
    split at h
    · cases h; rfl
    · cases h
  · rintro rfl
    simp [ofBytes?, t.nulFree, t.fits]

theorem ofBytes?_isSome {s : Bytes} (h0 : (0 : Byte) ∉ s) (h : s.length < n) :
    ofBytes? n s = some ⟨s, h0, h⟩ := by
  simp [ofBytes?, h0, h]

/-- The empty text. -/
def empty (h : 0 < n) : CStr n := ⟨[], List.not_mem_nil, h⟩

@[simp] theorem cstr_mem (s : CStr n) : cstr s.mem = s.bytes := cstr_append_nul s.nulFree

theorem length_mem (s : CStr n) : s.mem.length = s.bytes.length + 1 := by simp [mem]

end CStr

namespace CArray

variable {n : Nat}

/-- The C string in an array; `none` when no NUL closes it. -/
def text? (a : CArray n) : Option (CStr n) :=
  if h : (0 : Byte) ∈ a.bytes then
    some ⟨cstr a.bytes, nulFree_cstr _, Nat.lt_of_lt_of_eq (length_cstr_lt h) a.size_eq⟩
  else none

theorem strcpy_append_nul (a : CArray n) {s : Bytes} (h0 : (0 : Byte) ∉ s) (h : s.length < n) :
    a.strcpy (s ++ [0]) = some (a.write 0 (s ++ [0]) (by simp; omega)) := by
  have hcstr : cstr (s ++ [0]) = s := cstr_append_nul h0
  simp only [strcpy, hcstr]
  simp [h]

theorem strcpy_mem (a : CArray n) (s : CStr n) :
    a.strcpy s.mem = some (a.write 0 s.mem (by rw [s.length_mem]; have := s.fits; omega)) :=
  a.strcpy_append_nul s.nulFree s.fits

theorem text?_eq_some {a : CArray n} {s : CStr n} {rest : Bytes} (h : a.bytes = s.bytes ++ 0 :: rest) :
    a.text? = some s := by
  have hcstr : cstr a.bytes = s.bytes := by rw [h]; exact cstr_append_nul s.nulFree
  have hmem : (0 : Byte) ∈ a.bytes := by rw [h]; simp
  simp only [text?, hmem, ↓reduceDIte, Option.some.injEq]
  ext1
  exact hcstr

theorem bytes_of_text? {a : CArray n} {s : CStr n} (h : a.text? = some s) :
    ∃ rest, a.bytes = s.bytes ++ 0 :: rest := by
  unfold text? at h
  split at h
  · rename_i hmem
    cases h
    exact eq_cstr_append hmem
  · cases h

theorem cstr_of_text? {a : CArray n} {s : CStr n} (h : a.text? = some s) : cstr a.bytes = s.bytes := by
  obtain ⟨rest, hrest⟩ := bytes_of_text? h
  rw [hrest, cstr_append_nul s.nulFree]

end CArray

/-! ### Scanning up to a delimiter -/

/-- The field before the first delimiter is determined by the text. -/
theorem field_unique {d : Byte} {a a' b b' : Bytes} (ha : d ∉ a) (ha' : d ∉ a') (h : a ++ d :: b = a' ++ d :: b') :
    a = a' ∧ b = b' := by
  induction a generalizing a' with
  | nil =>
    cases a' with
    | nil => exact ⟨rfl, (List.cons_eq_cons.1 h).2⟩
    | cons x a' =>
      simp only [List.nil_append, List.cons_append, List.cons.injEq] at h
      exact absurd (h.1 ▸ List.mem_cons_self) ha'
  | cons x a ih =>
    cases a' with
    | nil =>
      simp only [List.nil_append, List.cons_append, List.cons.injEq] at h
      exact absurd (h.1 ▸ List.mem_cons_self) ha
    | cons y a' =>
      simp only [List.cons_append, List.cons.injEq] at h
      obtain ⟨rfl, htail⟩ := ih (fun hm => ha (List.mem_cons_of_mem _ hm)) (fun hm => ha' (List.mem_cons_of_mem _ hm))
        h.2
      exact ⟨by rw [h.1], htail⟩

/-- A delimiter that the end of a text does not hold stands before that end. -/
theorem field_of_append {d : Byte} {c z u v : Bytes} (hz : d ∉ z) (h : c ++ z = u ++ d :: v) :
    ∃ v', c = u ++ d :: v' ∧ v = v' ++ z := by
  rcases List.append_eq_append_iff.1 h with ⟨s, rfl, hs⟩ | ⟨s, rfl, hs⟩
  · exact absurd (by rw [hs]; simp) hz
  · cases s with
    | nil =>
      rw [List.nil_append] at hs
      exact absurd (by rw [← hs]; simp) hz
    | cons x s =>
      simp only [List.cons_append, List.cons.injEq] at hs
      obtain ⟨rfl, rfl⟩ := hs
      exact ⟨s, rfl, rfl⟩

/-- `while (src[count] != delim) dst[index++] = src[count++];`, then `dst[index] = term; count++;`.  The memory
`src` starts at `count`; the result is the array and the memory after the delimiter.  Reading past the memory or
writing past the array is undefined. -/
def scanField {n : Nat} (delim term : Byte) : Bytes → Nat → CArray n → Option (CArray n × Bytes)
  | [], _, _ => none
  | b :: src, index, dst =>
    if b = delim then (dst.store index term).map fun dst => (dst, src)
    else (dst.store index b).bind (scanField delim term src (index + 1))

variable {n : Nat} {delim term : Byte}

/-- A field that fits is scanned up to its delimiter. -/
theorem scanField_eq_some {f rest : Bytes} {index : Nat} {dst : CArray n} (hf : delim ∉ f)
    (hfit : index + f.length < n) :
    scanField delim term (f ++ delim :: rest) index dst =
      some (dst.write index (f ++ [term]) (by simp; omega), rest) := by
  induction f generalizing index dst with
  | nil =>
    simp only [List.nil_append, scanField, ↓reduceIte]
    rw [CArray.store_eq_write _ _ (by simpa using hfit)]
    rfl
  | cons b f ih =>
    simp only [List.mem_cons, not_or] at hf
    simp only [List.length_cons] at hfit
    simp only [List.cons_append, scanField, Ne.symm hf.1, ↓reduceIte]
    rw [CArray.store_eq_write _ _ (by omega), Option.bind_some, ih hf.2 (by omega)]
    have := CArray.write_write dst (i := index) (s := [b]) (t := f ++ [term]) (by simp; omega) (by simp; omega)
    simp only [List.length_singleton] at this
    rw [this]
    rfl

/-- Whatever is scanned is a field without the delimiter that fits the array. -/
theorem scanField_some {src rest : Bytes} {index : Nat} {dst dst' : CArray n}
    (h : scanField delim term src index dst = some (dst', rest)) :
    ∃ f, src = f ++ delim :: rest ∧ delim ∉ f ∧
      ∃ hfit : index + f.length < n, dst' = dst.write index (f ++ [term]) (by simp; omega) := by
  induction src generalizing index dst with
  | nil => cases h
  | cons b src ih =>
    unfold scanField at h
    split at h
    · rename_i hb
      subst hb
      by_cases hi : index < n
      · rw [CArray.store_eq_write _ _ hi] at h
        simp only [Option.map_some, Option.some.injEq, Prod.mk.injEq] at h
        obtain ⟨rfl, rfl⟩ := h
        exact ⟨[], rfl, List.not_mem_nil, by simpa using hi, rfl⟩
      · rw [CArray.store_eq_none _ _ (by omega)] at h
        cases h
    · rename_i hb
      by_cases hi : index < n
      · rw [CArray.store_eq_write _ _ hi, Option.bind_some] at h
        obtain ⟨f, rfl, hf, hfit, rfl⟩ := ih h
        refine ⟨b :: f, rfl, ?_, by simp only [List.length_cons]; omega, ?_⟩
        · simp only [List.mem_cons, not_or]
          exact ⟨fun e => hb e.symm, hf⟩
        · exact CArray.write_write dst (i := index) (s := [b]) (t := f ++ [term]) (by simp; omega)
            (by simp; omega)
      · rw [CArray.store_eq_none _ _ (by omega)] at h
        cases h

/-! ### Copying a counted number of bytes -/

/-- `for (i = index; count != 0; ++i, --count) dst[i] = g(src[i - index]);`.  Reading past the memory `src` or
writing past the array is undefined. -/
def copyLoop {n : Nat} (g : Byte → Byte) : Nat → Bytes → Nat → CArray n → Option (CArray n)
  | 0, _, _, dst => some dst
  | _ + 1, [], _, _ => none
  | count + 1, b :: src, i, dst => (dst.store i (g b)).bind (copyLoop g count src (i + 1))

theorem copyLoop_eq_some {g : Byte → Byte} {count i : Nat} {src : Bytes} {dst : CArray n}
    (hsrc : count ≤ src.length) (hfit : i + count ≤ n) :
    copyLoop g count src i dst = some (dst.write i ((src.take count).map g) (by simp; omega)) := by
  induction count generalizing src i dst with
  | zero => simp [copyLoop, CArray.write_nil]
  | succ count ih =>
    cases src with
    | nil => simp at hsrc
    | cons b src =>
      simp only [List.length_cons, Nat.add_le_add_iff_right] at hsrc
      rw [copyLoop, CArray.store_eq_write _ _ (by omega), Option.bind_some, ih hsrc (by omega)]
      have := CArray.write_write dst (i := i) (s := [g b]) (t := (src.take count).map g) (by simp; omega)
        (by simp; omega)
      simp only [List.length_singleton] at this
      rw [this]
      rfl

theorem copyLoop_id {count i : Nat} {src : Bytes} {dst : CArray n} (hsrc : count ≤ src.length)
    (hfit : i + count ≤ n) :
    copyLoop id count src i dst = some (dst.write i (src.take count) (by simp; omega)) := by
  rw [copyLoop_eq_some hsrc hfit]
  simp

/-- A copy that succeeds stayed inside both memories. -/
theorem copyLoop_some {g : Byte → Byte} {count i : Nat} {src : Bytes} {dst dst' : CArray n} (hi : i ≤ n)
    (h : copyLoop g count src i dst = some dst') : count ≤ src.length ∧ i + count ≤ n := by
  induction count generalizing src i dst with
  | zero => exact ⟨Nat.zero_le _, hi⟩
  | succ count ih =>
    cases src with
    | nil => cases h
    | cons b src =>
      rw [copyLoop] at h
      by_cases hin : i < n
      · rw [CArray.store_eq_write _ _ hin, Option.bind_some] at h
        have := ih (by omega) h
        simp only [List.length_cons]
        omega
      · rw [CArray.store_eq_none _ _ (by omega)] at h
        cases h

end CText
