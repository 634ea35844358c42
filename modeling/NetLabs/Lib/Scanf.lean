import NetLabs.Lib.Decimal

/-!
# `fscanf`

The three kinds of directives of a format: a character, white space, and a scan set `%[^...]`.  A call stops at the
first directive that fails, by a mismatch (the offending byte stays in the input) or by an input failure (the input
has ended), and leaves the rest of the input to the next call.
-/

namespace CText

/-- A directive of a format string. -/
inductive Directive
  | lit (b : Byte)
  | space
  | set (stop : Bytes)

/-- How a call ends. -/
inductive Ending
  | matched
  | mismatch
  | inputFailure
  deriving DecidableEq

/-- The texts assigned by a call, the input it leaves, and how it ended. -/
@[ext] structure Scan where
  converted : List Bytes
  rest : Bytes
  ending : Ending
  deriving DecidableEq

/-- The call returns `EOF`: the input ended before the first assignment. -/
def Scan.isEOF (r : Scan) : Bool := r.ending = .inputFailure ∧ r.converted = []

/-- `fscanf`. -/
def fscanf : List Directive → Bytes → Scan
  | [], input => ⟨[], input, .matched⟩
  | .lit _ :: _, [] => ⟨[], [], .inputFailure⟩
  | .lit b :: f, c :: input => if c = b then fscanf f input else ⟨[], c :: input, .mismatch⟩
  | .space :: f, input => fscanf f (input.dropWhile isSpace)
  | .set _ :: _, [] => ⟨[], [], .inputFailure⟩
  | .set stop :: f, c :: input =>
    if c ∈ stop then ⟨[], c :: input, .mismatch⟩
    else
      let r := fscanf f ((c :: input).dropWhile (· ∉ stop))
      { r with converted := (c :: input).takeWhile (· ∉ stop) :: r.converted }

theorem Scan.isEOF_of_ne {r : Scan} (h : r.ending ≠ .inputFailure) : r.isEOF = false := by
  simp [Scan.isEOF, h]

variable {f : List Directive} {stop s t : Bytes} {b c : Byte}

@[simp] theorem fscanf_end (input : Bytes) : fscanf [] input = ⟨[], input, .matched⟩ := rfl

@[simp] theorem fscanf_space (input : Bytes) : fscanf (.space :: f) input = fscanf f (input.dropWhile isSpace) := rfl

@[simp] theorem fscanf_lit (b : Byte) (input : Bytes) : fscanf (.lit b :: f) (b :: input) = fscanf f input := by
  simp [fscanf]

theorem fscanf_lit_ne (h : c ≠ b) (input : Bytes) :
    fscanf (.lit b :: f) (c :: input) = ⟨[], c :: input, .mismatch⟩ := by
  simp [fscanf, h]

@[simp] theorem fscanf_lit_nil (b : Byte) : fscanf (.lit b :: f) [] = ⟨[], [], .inputFailure⟩ := rfl

@[simp] theorem fscanf_set_nil (stop : Bytes) : fscanf (.set stop :: f) [] = ⟨[], [], .inputFailure⟩ := rfl

theorem fscanf_set_stop (h : b ∈ stop) (input : Bytes) :
    fscanf (.set stop :: f) (b :: input) = ⟨[], b :: input, .mismatch⟩ := by
  simp [fscanf, h]

/-- A non-empty text is assigned up to the first byte of the stop set. -/
theorem fscanf_set_append (hs : s ≠ []) (hclean : ∀ x ∈ s, x ∉ stop) (hb : b ∈ stop) (input : Bytes) :
    fscanf (.set stop :: f) (s ++ b :: input) =
      { fscanf f (b :: input) with converted := s :: (fscanf f (b :: input)).converted } := by
  have htake : (s ++ b :: input).takeWhile (· ∉ stop) = s := by
    rw [List.takeWhile_append_of_pos (by simpa using hclean)]
    simp [hb]
  have hdrop : (s ++ b :: input).dropWhile (· ∉ stop) = b :: input := by
    rw [List.dropWhile_append_of_pos (by simpa using hclean)]
    simp [hb]
  cases s with
  | nil => exact absurd rfl hs
  | cons x s =>
    rw [List.cons_append] at htake hdrop ⊢
    simp only [fscanf, hclean x (by simp), ↓reduceIte, htake, hdrop]

/-- A text that runs to the end of the input. -/
theorem fscanf_set_all (hs : s ≠ []) (hclean : ∀ x ∈ s, x ∉ stop) :
    fscanf (.set stop :: f) s = { fscanf f [] with converted := s :: (fscanf f []).converted } := by
  have htake : s.takeWhile (· ∉ stop) = s := List.takeWhile_eq_self_iff.2 (by simpa using hclean)
  have hdrop : s.dropWhile (· ∉ stop) = [] := List.dropWhile_eq_nil_iff.2 (by simpa using hclean)
  cases s with
  | nil => exact absurd rfl hs
  | cons x s => simp only [fscanf, hclean x (by simp), ↓reduceIte, htake, hdrop]

/-- A non-empty input is assigned up to a byte of the stop set, or to its end. -/
theorem exists_of_set_input (stop input : Bytes) (h : input ≠ []) :
    (∃ b rest, b ∈ stop ∧ input = b :: rest) ∨
    (∃ s b rest, s ≠ [] ∧ (∀ x ∈ s, x ∉ stop) ∧ b ∈ stop ∧ input = s ++ b :: rest) ∨
    ∀ x ∈ input, x ∉ stop := by
  induction input with
  | nil => exact absurd rfl h
  | cons c input ih =>
    by_cases hc : c ∈ stop
    · exact Or.inl ⟨c, input, hc, rfl⟩
    · by_cases hnil : input = []
      · subst hnil
        exact Or.inr (Or.inr (by simpa using hc))
      · rcases ih hnil with ⟨b, rest, hb, rfl⟩ | ⟨s, b, rest, -, hclean, hb, rfl⟩ | hall
        · exact Or.inr (Or.inl ⟨[c], b, rest, by simp, by simpa using hc, hb, rfl⟩)
        · refine Or.inr (Or.inl ⟨c :: s, b, rest, by simp, ?_, hb, rfl⟩)
          intro x hx
          rcases List.mem_cons.1 hx with rfl | hx
          · exact hc
          · exact hclean x hx
        · refine Or.inr (Or.inr ?_)
          intro x hx
          rcases List.mem_cons.1 hx with rfl | hx
          · exact hc
          · exact hall x hx

/-! ### Facts about every call -/

theorem rest_fscanf_nil (f : List Directive) : (fscanf f []).rest = [] := by
  induction f with
  | nil => rfl
  | cons d f ih =>
    cases d with
    | lit b => rfl
    | space => exact ih
    | set stop => rfl

/-- A call that does not reach the end of the input does the same when the input goes on. -/
theorem fscanf_append {input : Bytes} (h : (fscanf f input).rest ≠ []) (t : Bytes) :
    fscanf f (input ++ t) = { fscanf f input with rest := (fscanf f input).rest ++ t } := by
  induction f generalizing input with
  | nil => rfl
  | cons d f ih =>
    cases d with
    | lit b =>
      cases input with
      | nil => exact absurd rfl h
      | cons c input =>
        by_cases hc : c = b
        · subst hc
          simp only [fscanf_lit, List.cons_append] at h ⊢
          exact ih h
        · simp only [List.cons_append, fscanf_lit_ne hc]
    | space =>
      have hdrop : input.dropWhile isSpace ≠ [] := by
        intro hnil
        rw [fscanf, hnil] at h
        exact h (rest_fscanf_nil f)
      have happ : (input ++ t).dropWhile isSpace = input.dropWhile isSpace ++ t := by
        rw [List.dropWhile_append, if_neg (by simpa using hdrop)]
      simp only [fscanf, happ] at h ⊢
      exact ih h
    | set stop =>
      by_cases hnil : input = []
      · subst hnil
        exact absurd rfl h
      · rcases exists_of_set_input stop input hnil with ⟨b, rest, hb, rfl⟩ | ⟨s, b, rest, hs, hclean, hb, rfl⟩ | hall
        · simp only [List.cons_append, fscanf_set_stop hb]
        · rw [fscanf_set_append hs hclean hb] at h ⊢
          rw [List.append_assoc, List.cons_append, fscanf_set_append hs hclean hb]
          have := ih h
          rw [List.cons_append] at this
          simp only [this]
        · rw [fscanf_set_all hnil hall] at h
          exact absurd (rest_fscanf_nil f) h

/-- A format in two parts: the second one goes on where the first one has matched. -/
theorem fscanf_directives_append (f es : List Directive) (input : Bytes) :
    fscanf (f ++ es) input = if (fscanf f input).ending = .matched then
      { fscanf es (fscanf f input).rest with
        converted := (fscanf f input).converted ++ (fscanf es (fscanf f input).rest).converted }
    else fscanf f input := by
  induction f generalizing input with
  | nil => simp [fscanf]
  | cons d f ih =>
    cases d with
    | lit b =>
      cases input with
      | nil => simp
      | cons c input =>
        by_cases hc : c = b
        · subst hc
          simp only [List.cons_append, fscanf_lit, ih]
        · simp [fscanf_lit_ne hc]
    | space => exact ih _
    | set stop =>
      cases input with
      | nil => simp
      | cons c input =>
        by_cases hc : c ∈ stop
        · simp [fscanf_set_stop hc]
        · simp only [List.cons_append, fscanf, hc, ↓reduceIte, ih]
          split <;> rfl

/-- A format that ends with a character and white space: a call that has matched all of its input does the same when
the input goes on, and skips the white space that follows. -/
theorem fscanf_lit_space_append {input : Bytes} (hmatched : (fscanf (f ++ [.lit b, .space]) input).ending = .matched)
    (hrest : (fscanf (f ++ [.lit b, .space]) input).rest = []) (t : Bytes) :
    fscanf (f ++ [.lit b, .space]) (input ++ t) =
      { fscanf (f ++ [.lit b, .space]) input with rest := t.dropWhile isSpace } := by
  rw [fscanf_directives_append] at hmatched hrest
  split at hmatched
  · rename_i hds
    rw [if_pos hds] at hrest
    cases hrestds : (fscanf f input).rest with
    | nil => simp [hrestds] at hmatched
    | cons c rest =>
      by_cases hc : c = b
      · subst hc
        have happ := fscanf_append (show (fscanf f input).rest ≠ [] by simp [hrestds]) t
        simp only [hrestds, fscanf_lit, fscanf] at hrest
        have hall : ∀ x ∈ rest, isSpace x = true := by simpa using List.dropWhile_eq_nil_iff.1 hrest
        rw [fscanf_directives_append, fscanf_directives_append, happ, if_pos hds, if_pos hds]
        simp only [hrestds, List.cons_append, fscanf_lit, fscanf]
        rw [List.dropWhile_append_of_pos hall]
      · simp [hrestds, fscanf_lit_ne hc] at hmatched
  · rename_i hds
    exact absurd hmatched hds

/-- A mismatch leaves the byte that does not match. -/
theorem rest_ne_nil_of_mismatch {input : Bytes} (h : (fscanf f input).ending = .mismatch) :
    (fscanf f input).rest ≠ [] := by
  induction f generalizing input with
  | nil => cases h
  | cons d f ih =>
    cases d with
    | lit b =>
      cases input with
      | nil => cases h
      | cons c input =>
        by_cases hc : c = b
        · subst hc
          rw [fscanf_lit] at h ⊢
          exact ih h
        · simp [fscanf_lit_ne hc]
    | space => exact ih h
    | set stop =>
      cases input with
      | nil => cases h
      | cons c input =>
        by_cases hc : c ∈ stop
        · simp [fscanf_set_stop hc]
        · simp only [fscanf, hc, ↓reduceIte] at h ⊢
          exact ih h

/-- What a call assigns is non-empty and free of the bytes of its stop set. -/
theorem of_mem_converted {input : Bytes} (h : s ∈ (fscanf f input).converted) :
    s ≠ [] ∧ ∃ stop, Directive.set stop ∈ f ∧ ∀ x ∈ s, x ∉ stop := by
  induction f generalizing input with
  | nil => cases h
  | cons d f ih =>
    have hmore : ∀ i, s ∈ (fscanf f i).converted → s ≠ [] ∧ ∃ stop, Directive.set stop ∈ d :: f ∧ ∀ x ∈ s, x ∉ stop := by
      intro i hi
      obtain ⟨hs, stop, hmem, hclean⟩ := ih hi
      exact ⟨hs, stop, List.mem_cons_of_mem _ hmem, hclean⟩
    cases d with
    | lit b =>
      cases input with
      | nil => cases h
      | cons c input =>
        by_cases hc : c = b
        · subst hc
          rw [fscanf_lit] at h
          exact hmore _ h
        · rw [fscanf_lit_ne hc] at h
          cases h
    | space => exact hmore _ h
    | set stop =>
      cases input with
      | nil => cases h
      | cons c input =>
        by_cases hc : c ∈ stop
        · rw [fscanf_set_stop hc] at h
          cases h
        · simp only [fscanf, hc, ↓reduceIte, List.mem_cons] at h
          rcases h with rfl | h
          · refine ⟨by simp [hc], stop, by simp, ?_⟩
            intro x hx
            simpa using List.mem_takeWhile_imp hx
          · exact hmore _ h

end CText
