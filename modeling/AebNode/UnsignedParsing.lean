import AebNode.OptionValues

/-! What `parseUnsigned` takes for a number. `strtoul` skips white space, negates in unsigned
arithmetic and does not see past a NUL, so some texts are accepted that denote no number in
range; all others are read for what they are. -/
namespace AebNode.CommandLine
open NumberParsing

/-- `parseUnsigned` with its reference parameters: the result, and `out` and `error` after it. -/
def parseUnsignedRef (width : ℕ) (text : String) (out : UInt32) (error option : String) :
    Bool × UInt32 × String :=
  match parseUnsigned width text option with
  | .ok parsed => (true, parsed, error)
  | .error message => (false, out, message)

/-- One decimal digit or more. -/
structure Numeral (digits : List Char) : Prop where
  nonempty : digits ≠ []
  isDigit : ∀ c ∈ digits, c.isDigit = true

/-- The whole text is an optionally signed decimal integer, with this value. -/
inductive Denotes : List Char → ℤ → Prop
  | plain {digits} (h : Numeral digits) : Denotes digits (digitsValue 10 digits)
  | plus {digits} (h : Numeral digits) : Denotes ('+' :: digits) (digitsValue 10 digits)
  | minus {digits} (h : Numeral digits) : Denotes ('-' :: digits) (-digitsValue 10 digits)

/-- What `strtoul` converts to a number of at most 32 bits, white space apart. -/
inductive Converts (width : ℕ) : List Char → ℕ → Prop
  | plain {digits} (h : Numeral digits) (hle : digitsValue 10 digits ≤ kMaxNumericValue) :
      Converts width digits (digitsValue 10 digits)
  | plus {digits} (h : Numeral digits) (hle : digitsValue 10 digits ≤ kMaxNumericValue) :
      Converts width ('+' :: digits) (digitsValue 10 digits)
  | minus {digits} (h : Numeral digits) (hlt : digitsValue 10 digits < 2 ^ width)
      (hle : (2 ^ width - digitsValue 10 digits) % 2 ^ width ≤ kMaxNumericValue) :
      Converts width ('-' :: digits) ((2 ^ width - digitsValue 10 digits) % 2 ^ width)

theorem sign_numeral {digits : List Char} (h : Numeral digits) : sign digits = (false, digits) := by
  unfold sign
  split
  · exact absurd (h.isDigit '-' (by simp)) (by decide)
  · exact absurd (h.isDigit '+' (by simp)) (by decide)
  · rfl

theorem Converts.dropWhile {width n : ℕ} {number : List Char} (h : Converts width number n) :
    number.dropWhile isSpace = number := by
  have hhead : ∀ {c : Char} {text : List Char}, isSpace c = false →
      (c :: text).dropWhile isSpace = c :: text := by
    intro c text hc
    exact List.dropWhile_cons_of_neg (by simp [hc])
  cases h with
  | plus => exact hhead (by decide)
  | minus => exact hhead (by decide)
  | plain h =>
    cases number with
    | nil => rfl
    | cons c text => exact hhead (isSpace_of_isDigit (h.isDigit c (by simp)))

theorem strtoul_whole {width : ℕ} {text body digits : List Char} {negative : Bool}
    (hbody : text.dropWhile isSpace = body) (hsign : sign body = (negative, digits))
    (h : Numeral digits) (hlt : digitsValue 10 digits < 2 ^ width) :
    strtoul width text =
      ⟨if negative then (2 ^ width - digitsValue 10 digits) % 2 ^ width
        else digitsValue 10 digits, [], false⟩ := by
  have htake : digits.takeWhile Char.isDigit = digits := List.takeWhile_eq_self_iff.mpr h.isDigit
  have hdrop : digits.dropWhile Char.isDigit = [] := List.dropWhile_eq_nil_iff.mpr h.isDigit
  simp only [strtoul, hbody, hsign, htake, hdrop, if_neg h.nonempty, if_neg (not_le.mpr hlt)]

theorem strtoul_converts {width n : ℕ} {blanks number : List Char} (hwidth : 32 ≤ width)
    (hblanks : ∀ c ∈ blanks, isSpace c = true) (h : Converts width number n) :
    strtoul width (blanks ++ number) = ⟨n, [], false⟩ := by
  have hbody : (blanks ++ number).dropWhile isSpace = number := by
    rw [List.dropWhile_append_of_pos hblanks, h.dropWhile]
  have hpow : 2 ^ 32 ≤ 2 ^ width := Nat.pow_le_pow_right (by norm_num) hwidth
  have hfits : ∀ {v : ℕ}, v ≤ kMaxNumericValue → v < 2 ^ width := by
    intro v hv
    rw [kMaxNumericValue] at hv
    omega
  cases h with
  | plain h hle => exact strtoul_whole hbody (sign_numeral h) h (hfits hle)
  | plus h hle => exact strtoul_whole hbody rfl h (hfits hle)
  | minus h hlt => exact strtoul_whole hbody rfl h hlt

/-- A text that `strtoul` converts up to its end is empty, or a number behind white space. -/
theorem converts_of_strtoul {width : ℕ} {text : List Char} (hrest : (strtoul width text).rest = [])
    (hrange : (strtoul width text).outOfRange = false)
    (hmax : (strtoul width text).value ≤ kMaxNumericValue) :
    text = [] ∧ (strtoul width text).value = 0 ∨
      ∃ blanks number, text = blanks ++ number ∧ (∀ c ∈ blanks, isSpace c = true) ∧
        Converts width number (strtoul width text).value := by
  have hsplit : text = text.takeWhile isSpace ++ text.dropWhile isSpace :=
    List.takeWhile_append_dropWhile.symm
  have hblanks : ∀ c ∈ text.takeWhile isSpace, isSpace c = true :=
    fun c hc => List.mem_takeWhile_imp hc
  obtain ⟨negative, body, hsign⟩ : ∃ negative body,
      sign (text.dropWhile isSpace) = (negative, body) := ⟨_, _, rfl⟩
  by_cases hnone : body.takeWhile Char.isDigit = []
  · simp only [strtoul, hsign, hnone, ↓reduceIte] at hrest ⊢
    exact Or.inl ⟨hrest, trivial⟩
  right
  by_cases hlarge : 2 ^ width ≤ digitsValue 10 (body.takeWhile Char.isDigit)
  · simp only [strtoul, hsign, hnone, hlarge, ↓reduceIte] at hrange
    cases hrange
  simp only [strtoul, hsign, hnone, hlarge, ↓reduceIte] at hrest hmax ⊢
  -- Without a rest the digits are all there is behind the sign.
  have hdigits : body.takeWhile Char.isDigit = body := by
    have happend := List.takeWhile_append_dropWhile (p := Char.isDigit) (l := body)
    rwa [hrest, List.append_nil] at happend
  have hnumeral : Numeral body := by
    refine ⟨hdigits ▸ hnone, fun c hc => ?_⟩
    rw [← hdigits] at hc
    exact List.mem_takeWhile_imp hc
  rw [hdigits] at hmax hlarge ⊢
  refine ⟨text.takeWhile isSpace, text.dropWhile isSpace, hsplit, hblanks, ?_⟩
  unfold sign at hsign
  split at hsign
  case h_1 rest hnumber =>
    obtain ⟨rfl, rfl⟩ := Prod.mk.inj hsign
    rw [hnumber]
    exact .minus hnumeral (not_le.mp hlarge) hmax
  case h_2 rest hnumber =>
    obtain ⟨rfl, rfl⟩ := Prod.mk.inj hsign
    rw [hnumber]
    exact .plus hnumeral hmax
  case h_3 =>
    obtain ⟨rfl, hbody⟩ := Prod.mk.inj hsign
    rw [hbody]
    exact .plain hnumeral hmax

/-- What `parseUnsigned` takes for the number `n`, up to the first NUL. -/
def Taken (width : ℕ) (text : List Char) (n : ℕ) : Prop :=
  text = [] ∧ n = 0 ∨ ∃ blanks number, text = blanks ++ number ∧
    (∀ c ∈ blanks, isSpace c = true) ∧ Converts width number n

theorem Converts.le {width n : ℕ} {number : List Char} (h : Converts width number n) :
    n ≤ kMaxNumericValue := by
  cases h <;> assumption

theorem Taken.le {width n : ℕ} {text : List Char} (h : Taken width text n) :
    n ≤ kMaxNumericValue := by
  rcases h with ⟨-, rfl⟩ | ⟨blanks, number, -, -, hnumber⟩
  · exact Nat.zero_le _
  · exact hnumber.le

theorem Taken.strtoul {width n : ℕ} {text : List Char} (h : Taken width text n)
    (hwidth : 32 ≤ width) : strtoul width text = ⟨n, [], false⟩ := by
  rcases h with ⟨rfl, rfl⟩ | ⟨blanks, number, rfl, hblanks, hnumber⟩
  · rfl
  · exact strtoul_converts hwidth hblanks hnumber

theorem parseUnsigned_ok_iff {width : ℕ} (hwidth : 32 ≤ width) {text option : String}
    {parsed : UInt32} :
    parseUnsigned width text option = .ok parsed ↔
      text ≠ "" ∧ Taken width (cString text) parsed.toNat := by
  unfold parseUnsigned
  constructor
  · intro h
    by_cases hempty : text = ""
    · rw [if_pos hempty] at h
      cases h
    rw [if_neg hempty] at h
    dsimp only at h
    split_ifs at h with hrefused
    simp only [not_or, not_lt, Bool.not_eq_true, ne_eq, not_not] at hrefused
    obtain ⟨hrange, hrest, hmax⟩ := hrefused
    obtain rfl := Except.ok.inj h
    have hlt : (strtoul width (cString text)).value < 2 ^ 32 := by
      rw [kMaxNumericValue] at hmax
      omega
    have hvalue : (UInt32.ofNat (strtoul width (cString text)).value).toNat =
        (strtoul width (cString text)).value := UInt32.toNat_ofNat_of_lt hlt
    rw [hvalue]
    exact ⟨hempty, converts_of_strtoul hrest hrange hmax⟩
  · rintro ⟨hempty, htaken⟩
    have hmax := htaken.le
    rw [if_neg hempty, htaken.strtoul hwidth]
    simp [not_lt.mpr hmax]

/-! The characters of a number. -/

theorem Numeral.not_nul {digits : List Char} (h : Numeral digits) : ∀ c ∈ digits, c ≠ '\x00' := by
  rintro c hc rfl
  exact absurd (h.isDigit _ hc) (by decide)

theorem Converts.not_nul {width n : ℕ} {number : List Char} (h : Converts width number n) :
    ∀ c ∈ number, c ≠ '\x00' := by
  cases h with
  | plain h => exact h.not_nul
  | plus h => exact List.forall_mem_cons.mpr ⟨by decide, h.not_nul⟩
  | minus h => exact List.forall_mem_cons.mpr ⟨by decide, h.not_nul⟩

theorem Taken.not_nul {width n : ℕ} {text : List Char} (h : Taken width text n) :
    ∀ c ∈ text, c ≠ '\x00' := by
  rcases h with ⟨rfl, -⟩ | ⟨blanks, number, rfl, hblanks, hnumber⟩
  · simp
  · intro c hc
    rcases List.mem_append.mp hc with hc | hc
    · rintro rfl
      exact absurd (hblanks _ hc) (by decide)
    · exact hnumber.not_nul c hc

theorem Denotes.mem {text : List Char} {v : ℤ} (h : Denotes text v) {c : Char} (hc : c ∈ text) :
    c = '+' ∨ c = '-' ∨ c.isDigit = true := by
  cases h with
  | plain h => exact Or.inr (Or.inr (h.isDigit c hc))
  | plus h => exact (List.mem_cons.mp hc).imp_right fun hc => Or.inr (h.isDigit c hc)
  | minus h => exact Or.inr ((List.mem_cons.mp hc).imp_right fun hc => h.isDigit c hc)

theorem cString_nul {text : String} {front rest : List Char} (hfront : ∀ c ∈ front, c ≠ '\x00')
    (htext : text.toList = front ++ '\x00' :: rest) : cString text = front := by
  rw [cString, htext, List.takeWhile_append_of_pos (by simpa using hfront),
    List.takeWhile_cons_of_neg (by simp), List.append_nil]

/-- `parseUnsigned` returns true only on a text which denotes, from its first to its last
character, the number it stores; it returns true on the digits of every number that fits; and
where it returns false it leaves `out` alone and gives a message. -/
structure ReadFaithfully (width : ℕ) (text : String) : Prop where
  denoted : ∀ out error option parsed error',
    parseUnsignedRef width text out error option = (true, parsed, error') →
      ∃ v : ℤ, Denotes text.toList v ∧ 0 ≤ v ∧ v ≤ 2 ^ 32 - 1 ∧ (parsed.toNat : ℤ) = v
  accepted : Numeral text.toList → digitsValue 10 text.toList ≤ 2 ^ 32 - 1 →
    ∀ out error option, (parseUnsignedRef width text out error option).1 = true
  refused : ∀ out error option out' error',
    parseUnsignedRef width text out error option = (false, out', error') →
      out' = out ∧ error' ≠ ""

/-- The texts that are taken for a number they do not denote: a number behind white space, a
number or nothing in front of a NUL, and a negative number whose negation modulo the range of
`unsigned long` has at most 32 bits. -/
inductive Misread (width : ℕ) (text : List Char) : Prop
  | blank {b blanks number n} (hb : isSpace b = true) (hblanks : ∀ c ∈ blanks, isSpace c = true)
      (h : Converts width number n) (htext : text = b :: (blanks ++ number))
  | nul {front rest n} (h : Taken width front n) (htext : text = front ++ '\x00' :: rest)
  | negative {digits n} (h : Converts width ('-' :: digits) n) (hpos : 0 < digitsValue 10 digits)
      (htext : text = '-' :: digits)

theorem Misread.taken {width : ℕ} {text : String} (h : Misread width text.toList) :
    text ≠ "" ∧ ∃ n, Taken width (cString text) n := by
  constructor
  · rintro rfl
    cases h with
    | blank _ _ _ htext => cases htext
    | nul _ htext => simp at htext
    | negative _ _ htext => cases htext
  · cases h with
    | blank hb hblanks h htext =>
      rename_i b blanks number n
      have htaken : Taken width (b :: blanks ++ number) n :=
        Or.inr ⟨b :: blanks, number, rfl, List.forall_mem_cons.mpr ⟨hb, hblanks⟩, h⟩
      rw [List.cons_append, ← htext] at htaken
      rw [cString_eq htaken.not_nul]
      exact ⟨n, htaken⟩
    | nul h htext =>
      rw [cString_nul h.not_nul htext]
      exact ⟨_, h⟩
    | negative h hpos htext =>
      have htaken : Taken width text.toList _ := Or.inr ⟨[], _, htext, by simp, h⟩
      rw [cString_eq htaken.not_nul]
      exact ⟨_, htaken⟩

/-- No misread text denotes a number that is not negative. -/
theorem Misread.not_denotes {width : ℕ} {text : List Char} (h : Misread width text) {v : ℤ}
    (hv : 0 ≤ v) : ¬ Denotes text v := by
  intro hdenotes
  cases h with
  | blank hb _ _ htext =>
    rcases hdenotes.mem (htext ▸ List.mem_cons_self ..) with rfl | rfl | hdigit
    · exact absurd hb (by decide)
    · exact absurd hb (by decide)
    · rw [isSpace_of_isDigit hdigit] at hb
      cases hb
  | nul _ htext =>
    have hnul := hdenotes.mem (c := '\x00') (by simp [htext])
    exact absurd hnul (by decide)
  | negative _ hpos htext =>
    subst htext
    cases hdenotes with
    | plain h => exact absurd (h.isDigit '-' (by simp)) (by decide)
    | minus => omega

/-- A text that is taken for a number and not misread denotes that number. -/
theorem denotes_of_taken {width n : ℕ} {text : String} (hne : text ≠ "")
    (htaken : Taken width (cString text) n) (hread : ¬ Misread width text.toList) :
    Denotes text.toList n := by
  have hwhole : cString text = text.toList := by
    refine cString_eq fun c hc => ?_
    rintro rfl
    obtain ⟨front, rest, htext, hfront⟩ := List.eq_append_cons_of_mem hc
    rw [cString_nul (fun c hc hnul => hfront (hnul ▸ hc)) htext] at htaken
    exact hread (.nul htaken htext)
  rw [hwhole] at htaken
  rcases htaken with ⟨hempty, -⟩ | ⟨blanks, number, htext, hblanks, hnumber⟩
  · exact absurd hempty (by simpa using hne)
  cases blanks with
  | cons b blanks =>
    obtain ⟨hb, hblanks⟩ := List.forall_mem_cons.mp hblanks
    exact absurd (.blank hb hblanks hnumber htext) hread
  | nil =>
    rw [htext, List.nil_append]
    cases hnumber with
    | plain h => exact .plain h
    | plus h => exact .plus h
    | minus h hlt hle =>
      rename_i digits
      -- Only of a zero does the negation come out as the number itself.
      rcases Nat.eq_zero_or_pos (digitsValue 10 digits) with hzero | hpos
      · have hminus := Denotes.minus h
        rw [hzero] at hminus ⊢
        simpa using hminus
      · exact absurd (.negative (.minus h hlt hle) hpos htext) hread

theorem parseUnsignedRef_true {width : ℕ} {text option error error' : String}
    {out parsed : UInt32} :
    parseUnsignedRef width text out error option = (true, parsed, error') ↔
      parseUnsigned width text option = .ok parsed ∧ error' = error := by
  unfold parseUnsignedRef
  cases parseUnsigned width text option with
  | ok n => simp [eq_comm]
  | error message => simp

theorem Taken.parse {width n : ℕ} {text : String} (h : Taken width (cString text) n)
    (hwidth : 32 ≤ width) (hne : text ≠ "") (option : String) :
    parseUnsigned width text option = .ok (UInt32.ofNat n) := by
  have hlt : n < 2 ^ 32 := by
    have hle := h.le
    rw [kMaxNumericValue] at hle
    omega
  have hvalue : (UInt32.ofNat n).toNat = n := UInt32.toNat_ofNat_of_lt hlt
  exact (parseUnsigned_ok_iff hwidth).mpr ⟨hne, hvalue.symm ▸ h⟩

theorem Misread.not_faithful {width : ℕ} {text : String} (h : Misread width text.toList)
    (hwidth : 32 ≤ width) : ¬ ReadFaithfully width text := by
  intro hfaithful
  obtain ⟨hne, n, htaken⟩ := h.taken
  obtain ⟨v, hdenotes, hv, -⟩ := hfaithful.denoted 0 "" "" _ ""
    (parseUnsignedRef_true.mpr ⟨htaken.parse hwidth hne "", rfl⟩)
  exact h.not_denotes hv hdenotes

/-- `parseUnsigned` is faithful on a text exactly if that text is not misread. -/
theorem parse_unsigned_faithful_iff {width : ℕ} (hwidth : 32 ≤ width) (text : String) :
    ReadFaithfully width text ↔ ¬ Misread width text.toList := by
  constructor
  · exact fun hfaithful hmisread => hmisread.not_faithful hwidth hfaithful
  · intro hread
    constructor
    · intro out error option parsed error' h
      obtain ⟨hne, htaken⟩ := (parseUnsigned_ok_iff hwidth).mp (parseUnsignedRef_true.mp h).1
      have hlt := parsed.toNat_lt
      exact ⟨parsed.toNat, denotes_of_taken hne htaken hread, by omega, by omega, rfl⟩
    · intro hnumeral hle out error option
      have hne : text ≠ "" := by
        rintro rfl
        exact hnumeral.nonempty rfl
      have hmax : digitsValue 10 text.toList ≤ kMaxNumericValue := by
        rw [kMaxNumericValue]
        omega
      have htaken : Taken width (cString text) (digitsValue 10 text.toList) := by
        rw [cString_digits hnumeral.isDigit]
        exact Or.inr ⟨[], text.toList, rfl, by simp, .plain hnumeral hmax⟩
      rw [parseUnsignedRef, htaken.parse hwidth hne option]
    · intro out error option out' error' h
      unfold parseUnsignedRef at h
      cases hresult : parseUnsigned width text option with
      | ok n =>
        rw [hresult] at h
        cases h
      | error message =>
        rw [hresult] at h
        obtain ⟨-, rfl, rfl⟩ : True ∧ out = out' ∧ message = error' := by simpa using h
        exact ⟨rfl, Group.parseUnsigned_error hresult⟩

/-- The largest number that is accepted. -/
theorem parse_unsigned_faithful_largest : 32 ≤ 32 ∧ ReadFaithfully 32 "4294967295" := by
  have hnumeral : Numeral "4294967295".toList :=
    ⟨by simp, List.all_eq_true.mp (by decide +kernel)⟩
  refine ⟨le_rfl, (parse_unsigned_faithful_iff le_rfl "4294967295").mpr fun hmisread => ?_⟩
  exact hmisread.not_denotes (Int.natCast_nonneg _) (.plain hnumeral)

/-- Minus one is taken for the largest number where `unsigned long` has 32 bits, and the least
64-bit negation for one where it has 64. -/
theorem negative_number_accepted :
    parseUnsignedRef 32 "-1" 0 "" "--baud" = (true, 4294967295, "") ∧
      parseUnsignedRef 64 "-18446744073709551615" 0 "" "--baud" = (true, 1, "") ∧
      ¬ ReadFaithfully 32 "-1" ∧ ¬ ReadFaithfully 64 "-18446744073709551615" := by
  refine ⟨by decide +kernel, by decide +kernel, ?_, ?_⟩
  · have hnumeral : Numeral "1".toList := ⟨by simp, List.all_eq_true.mp (by decide +kernel)⟩
    have hvalue : digitsValue 10 "1".toList = 1 := by decide +kernel
    have hmisread : Misread 32 "-1".toList :=
      .negative (.minus hnumeral (by rw [hvalue]; norm_num)
        (by rw [hvalue, kMaxNumericValue]; norm_num)) (by rw [hvalue]; norm_num)
        (by decide +kernel)
    exact hmisread.not_faithful le_rfl
  · have hnumeral : Numeral "18446744073709551615".toList :=
      ⟨by simp, List.all_eq_true.mp (by decide +kernel)⟩
    have hvalue : digitsValue 10 "18446744073709551615".toList = 2 ^ 64 - 1 := by decide +kernel
    have hmisread : Misread 64 "-18446744073709551615".toList :=
      .negative (.minus hnumeral (by rw [hvalue]; norm_num)
        (by rw [hvalue, kMaxNumericValue]; norm_num)) (by rw [hvalue]; norm_num)
        (by decide +kernel)
    exact hmisread.not_faithful (by norm_num)

end AebNode.CommandLine
