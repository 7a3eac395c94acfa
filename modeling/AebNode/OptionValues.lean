import AebNode.OptionGroups

/-! What becomes of the numbers on the command line. Each number is the last one given to its
option, but two of the conversions to it lose something: `std::stof` ignores what follows a
number, and the casts to a port and to a quality drop the upper bits. -/
namespace AebNode.CommandLine
open NumberParsing

/-! The thresholds. -/

inductive Limit
  | minAngle
  | maxAngle
  | maxDistance
  deriving DecidableEq, Repr

namespace Limit

def option : Limit → OptionName
  | .minAngle => .minAngle
  | .maxAngle => .maxAngle
  | .maxDistance => .maxDistance

def field (options : Options) : Limit → FloatBits
  | .minAngle => options.perception.minAngleDeg
  | .maxAngle => options.perception.maxAngleDeg
  | .maxDistance => options.perception.maxDistanceMm

theorem option_valued (l : Limit) : l.option ∈ OptionName.valued := by
  cases l <;> decide

end Limit

theorem stof_eq_some_iff {text : List Char} {bits : FloatBits} :
    stof text = some bits ↔ ∃ rest, strtof text = some (some bits, rest) := by
  rw [stof, Option.bind_eq_some_iff]
  simp

theorem parseFloat_eq_ok_iff {text option : String} {bits : FloatBits} :
    parseFloat text option = .ok bits ↔ stof text.toList = some bits := by
  unfold parseFloat
  cases stof text.toList <;> simp

/-- A threshold comes from the last value, as far as `std::stof` reads it. -/
theorem limit_of_parse {width : ℕ} {argv : List String} {options : Options}
    (h : (parse width argv).1 = some options) (l : Limit) :
    values l.option argv = [] ∧ l.field options = l.field {} ∨
      ∃ text, (values l.option argv).getLast? = some text ∧
        stof text.toList = some (l.field options) := by
  rcases parse_last_value h with ⟨contents, rfl, hlast⟩
  have hoption := hlast l.option l.option_valued
  cases l <;>
  · rcases hoption with hnone | ⟨text, htext, hread⟩
    · exact Or.inl hnone
    · exact Or.inr ⟨text, htext, parseFloat_eq_ok_iff.mp hread⟩

/-- The whole text is a finite number, which rounds to these bits. -/
def WholeNumber (text : String) (bits : FloatBits) : Prop :=
  strtof text.toList = some (some bits, []) ∧ IsFinite bits

/-- Every threshold is its default or what the whole of its last value denotes, and a value that
is no finite number from end to end makes `parse` fail with a message. -/
structure StrictThresholds (width : ℕ) (argv : List String) : Prop where
  denoted : ∀ options, (parse width argv).1 = some options → ∀ l : Limit,
    values l.option argv = [] ∧ l.field options = l.field {} ∨
      ∃ text, (values l.option argv).getLast? = some text ∧ WholeNumber text (l.field options)
  rejected : ∀ (l : Limit) (text : String), text ∈ values l.option argv →
    (¬ ∃ bits, WholeNumber text bits) →
      (parse width argv).1 = none ∧ (parse width argv).2 ≠ ""

/-- The thresholds are parsed strictly exactly if every value given for one is a finite number
from end to end, or another argument is refused. -/
theorem strict_thresholds_iff (width : ℕ) (argv : List String) :
    StrictThresholds width argv ↔ (Accepted width argv →
      ∀ (l : Limit) (text : String), text ∈ values l.option argv →
        ∃ bits, WholeNumber text bits) := by
  constructor
  · intro hstrict haccepted l text htext
    by_contra hwhole
    exact (hstrict.rejected l text htext hwhole).2 (parse_accepted haccepted)
  · intro hwhole
    constructor
    · intro options hoptions l
      have haccepted := (parse_options hoptions).1
      rcases limit_of_parse hoptions l with hdefault | ⟨text, hlast, hread⟩
      · exact Or.inl hdefault
      · rcases hwhole haccepted l text (List.mem_of_getLast? hlast) with ⟨bits, htext, hfinite⟩
        rcases stof_eq_some_iff.mp hread with ⟨rest, hrest⟩
        rw [htext] at hrest
        simp only [Option.some.injEq, Prod.mk.injEq] at hrest
        rw [← hrest.1]
        exact Or.inr ⟨text, hlast, htext, hfinite⟩
    · intro l text htext hbroken
      apply parse_refused
      exact fun haccepted => hbroken (hwhole haccepted l text htext)

/-- A range with letters for its zeros is taken for eight millimetres. -/
theorem trailing_text_accepted :
    (parse 32 ["aeb_node", "--max-distance", "8OOO"]).1 =
        some { perception.maxDistanceMm := 0x41000000 } ∧
      ¬ StrictThresholds 32 ["aeb_node", "--max-distance", "8OOO"] := by
  have haccepted : (parse 32 ["aeb_node", "--max-distance", "8OOO"]).1 =
      some { perception.maxDistanceMm := 0x41000000 } := by decide +kernel
  refine ⟨haccepted, fun hstrict => ?_⟩
  have htext : strtof "8OOO".toList = some (some 0x41000000, "OOO".toList) := by decide +kernel
  have hbroken : ¬ ∃ bits, WholeNumber "8OOO" bits := by
    rintro ⟨bits, hwhole, -⟩
    rw [htext] at hwhole
    simp at hwhole
  have hfails := hstrict.rejected .maxDistance "8OOO" (by decide +kernel) hbroken
  rw [haccepted] at hfails
  cases hfails.1

/-! The integers. -/

inductive IntegerOption
  | baud
  | scanTimeoutMs
  | healthInterval
  | tcpPort
  | minQuality
  | minHits
  deriving DecidableEq, Repr

namespace IntegerOption

def option : IntegerOption → OptionName
  | .baud => .baud
  | .scanTimeoutMs => .scanTimeoutMs
  | .healthInterval => .healthInterval
  | .tcpPort => .tcpPort
  | .minQuality => .minQuality
  | .minHits => .minHits

def field (options : Options) : IntegerOption → ℕ
  | .baud => options.lidar.baudrate.toNat
  | .scanTimeoutMs => options.lidar.scanTimeoutMs.toNat
  | .healthInterval => options.healthIntervalS.toNat
  | .tcpPort => options.tcpServer.port.toNat
  | .minQuality => options.perception.minimumQuality.toNat
  | .minHits => options.perception.minHitsPerSector.toNat

def size : IntegerOption → ℕ
  | .tcpPort => 2 ^ 16
  | .minQuality => 2 ^ 8
  | _ => 2 ^ 32

theorem option_valued (i : IntegerOption) : i.option ∈ OptionName.valued := by
  cases i <;> decide

end IntegerOption

theorem isSpace_of_isDigit {c : Char} (h : c.isDigit = true) : isSpace c = false := by
  simp only [Char.isDigit, Bool.and_eq_true, decide_eq_true_eq, ge_iff_le,
    UInt32.le_iff_toNat_le] at h
  simp only [isSpace, Bool.or_eq_false_iff, Bool.and_eq_false_iff, decide_eq_false_iff_not,
    Char.le_def, UInt32.le_iff_toNat_le]
  constructor
  · rintro rfl
    simp at h
  · right
    have hreturn : ('\r').val.toNat = 13 := rfl
    have hzero : ('0').val.toNat = 48 := rfl
    omega

theorem strtoul_digits (width : ℕ) {text : List Char} (hne : text ≠ [])
    (hdigits : ∀ c ∈ text, c.isDigit = true) :
    strtoul width text =
      if 2 ^ width ≤ digitsValue 10 text then ⟨2 ^ width - 1, [], true⟩
      else ⟨digitsValue 10 text, [], false⟩ := by
  have hspace : text.dropWhile isSpace = text := by
    cases text with
    | nil => rfl
    | cons c text =>
      exact List.dropWhile_cons_of_neg (by simp [isSpace_of_isDigit (hdigits c (by simp))])
  have hsign : sign text = (false, text) := by
    unfold sign
    split
    · exact absurd (hdigits '-' (by simp)) (by decide)
    · exact absurd (hdigits '+' (by simp)) (by decide)
    · rfl
  have htake : text.takeWhile Char.isDigit = text := List.takeWhile_eq_self_iff.mpr hdigits
  have hdrop : text.dropWhile Char.isDigit = [] := List.dropWhile_eq_nil_iff.mpr hdigits
  simp only [strtoul, hspace, hsign, htake, hdrop, if_neg hne, Bool.false_eq_true, if_false]

def DigitsOnly (text : String) : Prop := ∀ c ∈ text.toList, c.isDigit = true

instance (text : String) : Decidable (DigitsOnly text) := List.decidableBAll ..

theorem cString_eq {text : String} (h : ∀ c ∈ text.toList, c ≠ '\x00') :
    cString text = text.toList :=
  List.takeWhile_eq_self_iff.mpr (by simpa using h)

theorem cString_digits {text : String} (hdigits : DigitsOnly text) :
    cString text = text.toList := by
  apply cString_eq
  rintro c hc rfl
  exact absurd (hdigits _ hc) (by decide)

/-- A text of digits that `parseUnsigned` accepts keeps its value. -/
theorem parseUnsigned_digits {width : ℕ} {text option : String} {n : UInt32}
    (hdigits : DigitsOnly text) (h : parseUnsigned width text option = .ok n) :
    digitsValue 10 text.toList < 2 ^ 32 ∧ n.toNat = digitsValue 10 text.toList := by
  unfold parseUnsigned at h
  by_cases hempty : text = ""
  · rw [if_pos hempty] at h
    cases h
  have hne : text.toList ≠ [] := by simpa using hempty
  rw [if_neg hempty, cString_digits hdigits, strtoul_digits width hne hdigits] at h
  dsimp only at h
  split_ifs at h with hrange hmax hmax
  · simp at hmax
  · simp only [not_true, ne_eq, false_or, not_lt, kMaxNumericValue] at hmax
    rcases Except.ok.inj h with rfl
    have hlt : digitsValue 10 text.toList < 2 ^ 32 := by omega
    exact ⟨hlt, UInt32.toNat_ofNat_of_lt hlt⟩

theorem map_eq_ok {α β : Type} {f : α → β} {x : Except String α} {b : β}
    (h : x.map f = .ok b) : ∃ a, x = .ok a ∧ f a = b := by
  cases x with
  | error error => cases h
  | ok a => exact ⟨a, rfl, Except.ok.inj h⟩

theorem integer_read {width : ℕ} {text : String} (hdigits : DigitsOnly text) (i : IntegerOption)
    {v} (h : i.option.read width text = .ok v) : digitsValue 10 text.toList < 2 ^ 32 := by
  cases i with
  | tcpPort =>
    rcases map_eq_ok h with ⟨n, hn, -⟩
    exact (parseUnsigned_digits hdigits hn).1
  | minQuality =>
    rcases map_eq_ok h with ⟨n, hn, -⟩
    exact (parseUnsigned_digits hdigits hn).1
  | baud | scanTimeoutMs | healthInterval | minHits => exact (parseUnsigned_digits hdigits h).1

theorem integer_of_parse {width : ℕ} {argv : List String} {options : Options}
    (h : (parse width argv).1 = some options) (i : IntegerOption)
    (hdigits : ∀ text ∈ values i.option argv, DigitsOnly text) :
    values i.option argv = [] ∧ i.field options = i.field {} ∨
      ∃ text, (values i.option argv).getLast? = some text ∧
        i.field options = digitsValue 10 text.toList % i.size := by
  rcases parse_last_value h with ⟨contents, rfl, hlast⟩
  rcases hlast i.option i.option_valued with ⟨hnone, hdefault⟩ | ⟨text, htext, hread⟩
  · refine Or.inl ⟨hnone, ?_⟩
    cases i with
    | tcpPort => exact congrArg UInt16.toNat hdefault
    | minQuality => exact congrArg UInt8.toNat hdefault
    | baud | scanTimeoutMs | healthInterval | minHits => exact congrArg UInt32.toNat hdefault
  · refine Or.inr ⟨text, htext, ?_⟩
    have honly := hdigits text (List.mem_of_getLast? htext)
    cases i with
    | tcpPort =>
      rcases map_eq_ok hread with ⟨n, hn, hcast⟩
      rw [← (parseUnsigned_digits honly hn).2]
      exact (congrArg UInt16.toNat hcast.symm).trans (UInt32.toNat_toUInt16 n)
    | minQuality =>
      rcases map_eq_ok hread with ⟨n, hn, hcast⟩
      rw [← (parseUnsigned_digits honly hn).2]
      exact (congrArg UInt8.toNat hcast.symm).trans (UInt32.toNat_toUInt8 n)
    | baud | scanTimeoutMs | healthInterval | minHits =>
      rcases parseUnsigned_digits honly hread with ⟨hlt, hvalue⟩
      exact hvalue.trans (Nat.mod_eq_of_lt hlt).symm

/-- Every integer field is its default or the number its last value denotes, and a number that
does not fit its field makes `parse` fail with a message. -/
structure KeptIntegers (width : ℕ) (argv : List String) : Prop where
  denoted : ∀ options, (parse width argv).1 = some options → ∀ i : IntegerOption,
    values i.option argv = [] ∧ i.field options = i.field {} ∨
      ∃ text, (values i.option argv).getLast? = some text ∧
        i.field options = digitsValue 10 text.toList
  rejected : ∀ (i : IntegerOption) (text : String), text ∈ values i.option argv →
    i.size ≤ digitsValue 10 text.toList →
      (parse width argv).1 = none ∧ (parse width argv).2 ≠ ""

/-- Where all integers are given in digits, they are kept exactly if every port is below 2^16
and every quality below 2^8, or another argument is refused. -/
theorem kept_integers_iff (width : ℕ) (argv : List String)
    (hdigits : ∀ (i : IntegerOption) (text : String), text ∈ values i.option argv →
      DigitsOnly text) :
    KeptIntegers width argv ↔ (Accepted width argv →
      (∀ text ∈ values .tcpPort argv, digitsValue 10 text.toList < 2 ^ 16) ∧
      ∀ text ∈ values .minQuality argv, digitsValue 10 text.toList < 2 ^ 8) := by
  constructor
  · intro hkept haccepted
    have hfits : ∀ (i : IntegerOption) (text : String), text ∈ values i.option argv →
        digitsValue 10 text.toList < i.size := by
      intro i text htext
      by_contra hlarge
      exact (hkept.rejected i text htext (not_lt.mp hlarge)).2 (parse_accepted haccepted)
    exact ⟨hfits .tcpPort, hfits .minQuality⟩
  · intro hbounds
    have hfits : Accepted width argv → ∀ (i : IntegerOption) (text : String),
        text ∈ values i.option argv → digitsValue 10 text.toList < i.size := by
      intro haccepted i text htext
      rcases haccepted.read i.option_valued htext with ⟨v, hv⟩
      have hword := integer_read (hdigits i text htext) i hv
      cases i with
      | tcpPort => exact (hbounds haccepted).1 text htext
      | minQuality => exact (hbounds haccepted).2 text htext
      | baud | scanTimeoutMs | healthInterval | minHits => exact hword
    constructor
    · intro options hoptions i
      have haccepted := (parse_options hoptions).1
      rcases integer_of_parse hoptions i (hdigits i) with hdefault | ⟨text, hlast, hfield⟩
      · exact Or.inl hdefault
      · have hlt := hfits haccepted i text (List.mem_of_getLast? hlast)
        rw [Nat.mod_eq_of_lt hlt] at hfield
        exact Or.inr ⟨text, hlast, hfield⟩
    · intro i text htext hlarge
      apply parse_refused
      intro haccepted
      exact absurd (hfits haccepted i text htext) (not_lt.mpr hlarge)

/-- A port that fits, given twice. -/
theorem kept_integers_port :
    KeptIntegers 64 ["aeb_node", "--tcp-port", "65535", "--baud", "9600", "--tcp-port", "80"] := by
  have hargs : ∀ (i : IntegerOption), ∀ text ∈ values i.option
      ["aeb_node", "--tcp-port", "65535", "--baud", "9600", "--tcp-port", "80"],
      DigitsOnly text := by
    intro i
    cases i <;> decide +kernel
  have hfit : (∀ text ∈ values .tcpPort ["aeb_node", "--tcp-port", "65535", "--baud", "9600",
      "--tcp-port", "80"], digitsValue 10 text.toList < 2 ^ 16) ∧
      ∀ text ∈ values .minQuality ["aeb_node", "--tcp-port", "65535", "--baud", "9600",
        "--tcp-port", "80"], digitsValue 10 text.toList < 2 ^ 8 := by decide +kernel
  exact (kept_integers_iff 64 _ hargs).mpr fun _ => hfit

/-- Port 65616 is taken for port 80. -/
theorem port_wrapped :
    (parse 32 ["aeb_node", "--tcp-port", "65616"]).1 = some { tcpServer.port := 80 } ∧
      ¬ KeptIntegers 32 ["aeb_node", "--tcp-port", "65616"] := by
  have haccepted : (parse 32 ["aeb_node", "--tcp-port", "65616"]).1 =
      some { tcpServer.port := 80 } := by decide +kernel
  refine ⟨haccepted, fun hkept => ?_⟩
  have hfails := hkept.rejected .tcpPort "65616" (by decide +kernel) (by decide +kernel)
  rw [haccepted] at hfails
  cases hfails.1

end AebNode.CommandLine
