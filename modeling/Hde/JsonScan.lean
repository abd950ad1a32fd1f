import Hde.Dicts
import Hde.JsonText
import Hde.Utf16

/-!
Scanning a JSON document, for a reader of any kind: what it makes of the characters of a
string, of an integer and of a fraction, and which bare words it knows. A member that
comes twice counts once, with its last value. The scan is by fuel, of which twice the
length of the text is enough (`scanValue_fuel`).
-/
namespace Hde.JsonScan
open Hde.Text Hde.JsonText Hde.Dicts Hde.Utf16

/-- A character of a string, and whether it was written `\uXXXX`. -/
abbrev Scanned := Bool × CodePoint

/-- What a reader makes of the parts of a document. -/
structure Reader (ε : Type) where
  invalid : ε
  string : List Scanned → Str
  integer : Str → Except ε Json
  fraction : Str → Except ε Json
  words : List (Str × Json)

variable {ε : Type}

def isWhite (c : CodePoint) : Bool := c.val == 0x20 || c.val == 0x09 || c.val == 0x0A || c.val == 0x0D

def skip (s : Str) : Str := s.dropWhile isWhite

/-! ### Strings -/

def hexValue (c : CodePoint) : Option Nat :=
  if 48 ≤ c.val ∧ c.val ≤ 57 then some (c.val - 48)
  else if 97 ≤ c.val ∧ c.val ≤ 102 then some (c.val - 87)
  else if 65 ≤ c.val ∧ c.val ≤ 70 then some (c.val - 55)
  else none

/-- The number of four hexadecimal digits. -/
def hexQuad (a b c d : CodePoint) : Option Nat := do
  return (← hexValue a) * 4096 + (← hexValue b) * 256 + (← hexValue c) * 16 + (← hexValue d)

/-- What a backslash before a character other than `u` stands for. -/
def shortEscape (c : CodePoint) : Option CodePoint :=
  if c.val = 0x22 ∨ c.val = 0x5C ∨ c.val = 0x2F then some c
  else if c.val = 0x62 then some (CodePoint.ofNat 0x08)
  else if c.val = 0x66 then some (CodePoint.ofNat 0x0C)
  else if c.val = 0x6E then some (CodePoint.ofNat 0x0A)
  else if c.val = 0x72 then some (CodePoint.ofNat 0x0D)
  else if c.val = 0x74 then some (CodePoint.ofNat 0x09)
  else none

/-- The characters up to the closing quotation mark, and what is after it. -/
def scanString : Str → Option (List Scanned × Str)
  | [] => none
  | c :: rest =>
    if c.val = 0x22 then some ([], rest)
    else if c.val = 0x5C then
      match rest with
      | [] => none
      | e :: after =>
        if e.val = 0x75 then
          match after with
          | h₁ :: h₂ :: h₃ :: h₄ :: more => do
            let n ← hexQuad h₁ h₂ h₃ h₄
            let (scanned, final) ← scanString more
            return ((true, CodePoint.ofNat n) :: scanned, final)
          | _ => none
        else do
          let d ← shortEscape e
          let (scanned, final) ← scanString after
          return ((false, d) :: scanned, final)
    -- a control character has to be escaped
    else if c.val ≤ 0x1F then none
    else do
      let (scanned, final) ← scanString rest
      return ((false, c) :: scanned, final)

/-! ### Numbers and words -/

def isDigit (c : CodePoint) : Bool := 48 ≤ c.val && c.val ≤ 57

def scanMinus : Str → Str × Str
  | [] => ([], [])
  | c :: rest => if c.val = 0x2D then ([c], rest) else ([], c :: rest)

/-- The digits before the point: a zero stands alone. -/
def scanWhole : Str → Option (Str × Str)
  | [] => none
  | c :: rest =>
    if c.val = 48 then some ([c], rest)
    else if isDigit c then some (c :: rest.takeWhile isDigit, rest.dropWhile isDigit)
    else none

def scanFraction : Str → Str × Str
  | [] => ([], [])
  | c :: rest =>
    if c.val = 0x2E ∧ rest.takeWhile isDigit ≠ [] then (c :: rest.takeWhile isDigit, rest.dropWhile isDigit)
    else ([], c :: rest)

def scanSign : Str → Str × Str
  | [] => ([], [])
  | c :: rest => if c.val = 0x2D ∨ c.val = 0x2B then ([c], rest) else ([], c :: rest)

def scanExponent : Str → Str × Str
  | [] => ([], [])
  | c :: rest =>
    let (sign, after) := scanSign rest
    if (c.val = 0x65 ∨ c.val = 0x45) ∧ after.takeWhile isDigit ≠ [] then
      (c :: (sign ++ after.takeWhile isDigit), after.dropWhile isDigit)
    else ([], c :: rest)

def readNumber (reader : Reader ε) (whole fraction exponent : Str) : Except ε Json :=
  if fraction = [] ∧ exponent = [] then reader.integer whole else reader.fraction (whole ++ fraction ++ exponent)

def scanNumber (reader : Reader ε) (s : Str) : Except ε (Json × Str) :=
  let (minus, unsigned) := scanMinus s
  match scanWhole unsigned with
  | none => .error reader.invalid
  | some (whole, s₁) =>
    let (fraction, s₂) := scanFraction s₁
    let (exponent, s₃) := scanExponent s₂
    (readNumber reader (minus ++ whole) fraction exponent).map (·, s₃)

def scanWord (words : List (Str × Json)) (s : Str) : Option (Json × Str) :=
  words.findSome? fun (word, value) => if word <+: s then some (value, s.drop word.length) else none

/-- A bare word or a number. -/
def scanBare (reader : Reader ε) (s : Str) : Except ε (Json × Str) :=
  match scanWord reader.words s with
  | some found => .ok found
  | none => scanNumber reader s

/-- A string in quotation marks. -/
def scanQuoted (reader : Reader ε) : Str → Except ε (Str × Str)
  | [] => .error reader.invalid
  | c :: rest =>
    if c.val = 0x22 then
      match scanString rest with
      | none => .error reader.invalid
      | some (scanned, after) => .ok (reader.string scanned, after)
    else .error reader.invalid

/-! ### Values -/

/-- The `dict` of some members, set one after the other. -/
def collected (members : List (Str × Json)) : Dict Str Json :=
  members.foldl (fun d member => d.set member.1 member.2) Dict.empty

theorem collected_append (members : List (Str × Json)) (key : Str) (value : Json) :
    collected (members ++ [(key, value)]) = (collected members).set key value := by
  rw [collected, collected, List.foldl_append]
  rfl

theorem mem_collected {members : List (Str × Json)} {entry : Str × Json}
    (member : entry ∈ (collected members).entries) : entry ∈ members := by
  induction members using List.reverseRecOn with
  | nil => exact member
  | append_singleton earlier last ih =>
    rw [collected_append] at member
    have found := Dict.get?_eq_some_iff.mpr member
    rw [Dict.get?_set] at found
    split at found
    · next same =>
      have whole : last = entry := Prod.ext same.symm (Option.some.inj found)
      simp [whole]
    · exact List.mem_append_left _ (ih (Dict.get?_eq_some_iff.mp found))

/-- Members with different keys are the items of their `dict`. -/
theorem entries_collected {members : List (Str × Json)} (distinct : (members.map Prod.fst).Nodup) :
    (collected members).entries = members := by
  induction members using List.reverseRecOn with
  | nil => rfl
  | append_singleton earlier last ih =>
    rw [List.map_append, List.nodup_append] at distinct
    obtain ⟨before, -, apart⟩ := distinct
    have absent : last.1 ∉ (collected earlier).keys := by
      rw [Dict.keys, ih before]
      exact fun inside => apart _ inside _ (List.mem_map_of_mem (List.mem_singleton_self last)) rfl
    rw [collected_append, Dict.set, dif_neg absent]
    exact congrArg (· ++ [last]) (ih before)

/-- What is after a character that has to come next. -/
def expect (reader : Reader ε) (n : Nat) : Str → Except ε Str
  | [] => .error reader.invalid
  | c :: rest => if c.val = n then .ok rest else .error reader.invalid

mutual

def scanValue (reader : Reader ε) : Nat → Str → Except ε (Json × Str)
  | 0, _ => .error reader.invalid
  | _ + 1, [] => .error reader.invalid
  | fuel + 1, c :: rest =>
    if c.val = 0x22 then (scanQuoted reader (c :: rest)).map fun (text, after) => (.str text, after)
    else if c.val = 0x5B then
      match expect reader 0x5D (skip rest) with
      | .ok after => .ok (.arr [], after)
      | .error _ => (scanItems reader fuel (skip rest)).map fun (items, after) => (.arr items, after)
    else if c.val = 0x7B then
      match expect reader 0x7D (skip rest) with
      | .ok after => .ok (.obj [], after)
      | .error _ => (scanMembers reader fuel (skip rest)).map fun (members, after) =>
          (.obj (collected members).entries, after)
    else scanBare reader (c :: rest)

/-- The items up to the closing bracket. -/
def scanItems (reader : Reader ε) : Nat → Str → Except ε (List Json × Str)
  | 0, _ => .error reader.invalid
  | fuel + 1, s => do
    let (item, after) ← scanValue reader fuel s
    match expect reader 0x5D (skip after) with
    | .ok final => return ([item], final)
    | .error _ =>
      let more ← expect reader 0x2C (skip after)
      let (items, final) ← scanItems reader fuel (skip more)
      return (item :: items, final)

/-- The members up to the closing brace. -/
def scanMembers (reader : Reader ε) : Nat → Str → Except ε (List (Str × Json) × Str)
  | 0, _ => .error reader.invalid
  | fuel + 1, s => do
    let (key, named) ← scanQuoted reader s
    let colon ← expect reader 0x3A (skip named)
    let (value, after) ← scanValue reader fuel (skip colon)
    match expect reader 0x7D (skip after) with
    | .ok final => return ([(key, value)], final)
    | .error _ =>
      let more ← expect reader 0x2C (skip after)
      let (members, final) ← scanMembers reader fuel (skip more)
      return ((key, value) :: members, final)

end

def enough (s : Str) : Nat := 2 * s.length + 1

/-- A whole document. -/
def scan (reader : Reader ε) (s : Str) : Except ε Json := do
  let (value, after) ← scanValue reader (enough (skip s)) (skip s)
  if skip after = [] then return value else .error reader.invalid

/-! ### Scanning a printed string -/

/-- The characters that are printed as `\uXXXX`. -/
def Hexed (c : CodePoint) : Prop := ¬ (0x20 ≤ c.val ∧ c.val ≤ 0x7E) ∧ c.val ∉ [0x08, 0x09, 0x0A, 0x0C, 0x0D]

instance : DecidablePred Hexed := fun c =>
  inferInstanceAs (Decidable (¬ (0x20 ≤ c.val ∧ c.val ≤ 0x7E) ∧ c.val ∉ [0x08, 0x09, 0x0A, 0x0C, 0x0D]))

/-- What the scan of a printed character gives. -/
def scannedChar (c : CodePoint) : List Scanned :=
  if c.val < 0x10000 then [(Hexed c, c)] else [(true, highOf c), (true, lowOf c)]

def scannedText (s : Str) : List Scanned := s.flatMap scannedChar

/-- More characters before what a scan gives. -/
def before (first : List Scanned) (more : Option (List Scanned × Str)) : Option (List Scanned × Str) :=
  more.map fun (scanned, final) => (first ++ scanned, final)

theorem hexValue_hexDigit {d : Nat} (small : d < 16) : hexValue (hexDigit d) = some d := by
  have value : (hexDigit d).val = if d < 10 then 48 + d else 87 + d := by
    unfold hexDigit
    rw [CodePoint.ofNat_val]
    split <;> omega
  unfold hexValue
  rw [value]
  by_cases decimal : d < 10
  · rw [if_pos decimal, if_pos (by omega)]
    simp
  · rw [if_neg decimal, if_neg (by omega), if_pos (by omega)]
    simp

theorem scanString_escape {n : Nat} (small : n < 0x10000) (rest : Str) :
    scanString (escape n ++ rest) = before [(true, CodePoint.ofNat n)] (scanString rest) := by
  have read : hexQuad (hexDigit (n / 4096 % 16)) (hexDigit (n / 256 % 16)) (hexDigit (n / 16 % 16)) (hexDigit (n % 16)) =
      some n := by
    have value : n / 4096 % 16 * 4096 + n / 256 % 16 * 256 + n / 16 % 16 * 16 + n % 16 = n := by omega
    simp [hexQuad, hexValue_hexDigit, Nat.mod_lt, value]
  have mark : lit "\\u" = [CodePoint.ofNat 0x5C, CodePoint.ofNat 0x75] := by decide
  have slash : (CodePoint.ofNat 0x5C).val = 0x5C := by decide
  have hex : (CodePoint.ofNat 0x75).val = 0x75 := by decide
  simp only [escape, mark, List.cons_append, List.nil_append, scanString, slash, hex, read]
  cases scanString rest <;> simp [before]

theorem scanString_short {c d : CodePoint} (escapes : shortEscape c = some d) (rest : Str)
    (other : c.val ≠ 0x75) :
    scanString (CodePoint.ofNat 0x5C :: c :: rest) = before [(false, d)] (scanString rest) := by
  have slash : (CodePoint.ofNat 0x5C).val = 0x5C := by decide
  rw [scanString.eq_def]
  simp only [slash, if_neg other, escapes]
  cases scanString rest <;> simp [before]

theorem scanString_plain {c : CodePoint} (plain : c.val ≠ 0x22 ∧ c.val ≠ 0x5C ∧ 0x1F < c.val) (rest : Str) :
    scanString (c :: rest) = before [(false, c)] (scanString rest) := by
  rw [scanString.eq_def]
  simp only [if_neg plain.1, if_neg plain.2.1, if_neg (Nat.not_le.mpr plain.2.2)]
  cases scanString rest <;> simp [before]

private theorem scannedChar_plain {c : CodePoint} (small : c.val < 0x7F) (unhexed : ¬ Hexed c) :
    scannedChar c = [(false, c)] := by
  rw [scannedChar, if_pos (by omega)]
  simp [unhexed]

theorem scanString_quoteChar (c : CodePoint) (rest : Str) :
    scanString (quoteChar c ++ rest) = before (scannedChar c) (scanString rest) := by
  have bound := c.valid
  have code {n : Nat} (value : c.val = n) : c = CodePoint.ofNat n := by
    apply CodePoint.ext
    rw [CodePoint.ofNat_val (by omega), value]
  -- a backslash and a letter
  have short {n : Nat} {text : Str} (letter : CodePoint) (value : c.val = n)
      (escapes : text = [CodePoint.ofNat 0x5C, letter] ∧ shortEscape letter = some (CodePoint.ofNat n) ∧ letter.val ≠ 0x75)
      (unhexed : n < 0x7F ∧ ¬ Hexed (CodePoint.ofNat n)) :
      scanString (text ++ rest) = before (scannedChar c) (scanString rest) := by
    rw [code value, scannedChar_plain (by rw [CodePoint.ofNat_val (by omega)]; exact unhexed.1) unhexed.2, escapes.1]
    exact scanString_short escapes.2.1 rest escapes.2.2
  unfold quoteChar
  split
  · next value => exact short (CodePoint.ofNat 0x22) value (by decide) (by decide)
  split
  · next value => exact short (CodePoint.ofNat 0x5C) value (by decide) (by decide)
  split
  · next value => exact short (CodePoint.ofNat 0x6E) value (by decide) (by decide)
  split
  · next value => exact short (CodePoint.ofNat 0x72) value (by decide) (by decide)
  split
  · next value => exact short (CodePoint.ofNat 0x74) value (by decide) (by decide)
  split
  · next value => exact short (CodePoint.ofNat 0x66) value (by decide) (by decide)
  split
  · next value => exact short (CodePoint.ofNat 0x62) value (by decide) (by decide)
  split
  · next printable =>
    rw [scannedChar_plain (by omega) fun hexed => hexed.1 printable]
    exact scanString_plain (by omega) rest
  split
  · next feed back plain small =>
    have hexed : Hexed c := ⟨plain, by simp; omega⟩
    rw [scanString_escape small, ← code rfl, scannedChar, if_pos small]
    simp [hexed]
  · next large =>
    rw [List.append_assoc, scanString_escape (by omega), scanString_escape (by omega), scannedChar, if_neg large]
    cases scanString rest <;> simp [before, highOf, lowOf]

theorem scanString_quoted (s rest : Str) :
    scanString (s.flatMap quoteChar ++ CodePoint.ofNat 0x22 :: rest) = some (scannedText s, rest) := by
  induction s with
  | nil =>
    have mark : (CodePoint.ofNat 0x22).val = 0x22 := by decide
    rw [List.flatMap_nil, List.nil_append, scanString.eq_def]
    simp [mark, scannedText]
  | cons c more ih =>
    rw [List.flatMap_cons, List.append_assoc, scanString_quoteChar, ih]
    rfl

theorem scanQuoted_quote (reader : Reader ε) (s rest : Str) :
    scanQuoted reader (quote s ++ rest) = .ok (reader.string (scannedText s), rest) := by
  have mark : lit "\"" = [CodePoint.ofNat 0x22] := by decide
  have value : (CodePoint.ofNat 0x22).val = 0x22 := by decide
  simp [quote, mark, scanQuoted, value, scanString_quoted]

/-! ### Scanning a number -/

def Digits (s : Str) : Prop := s ≠ [] ∧ ∀ c ∈ s, isDigit c = true

def Minus (s : Str) : Prop := s = [] ∨ ∃ c, s = [c] ∧ c.val = 0x2D

/-- Digits with no zero in front of others. -/
def Whole (s : Str) : Prop := ∃ c rest, s = c :: rest ∧ Digits s ∧ (c.val = 48 → rest = [])

def Fraction (s : Str) : Prop := s = [] ∨ ∃ point digits, s = point :: digits ∧ point.val = 0x2E ∧ Digits digits

def Sign (s : Str) : Prop := s = [] ∨ ∃ c, s = [c] ∧ (c.val = 0x2D ∨ c.val = 0x2B)

def Exponent (s : Str) : Prop :=
  s = [] ∨ ∃ e sign digits, s = e :: (sign ++ digits) ∧ (e.val = 0x65 ∨ e.val = 0x45) ∧ Sign sign ∧ Digits digits

/-- A number is over here: none of its characters comes next. -/
def Ends (rest : Str) : Prop :=
  ∀ c, rest.head? = some c → isDigit c = false ∧ c.val ≠ 0x2E ∧ c.val ≠ 0x65 ∧ c.val ≠ 0x45

theorem while_digits {ds rest : Str} (digits : ∀ c ∈ ds, isDigit c = true)
    (ended : ∀ c, rest.head? = some c → isDigit c = false) :
    (ds ++ rest).takeWhile isDigit = ds ∧ (ds ++ rest).dropWhile isDigit = rest := by
  rw [List.takeWhile_append_of_pos digits, List.dropWhile_append_of_pos digits]
  cases rest with
  | nil => simp
  | cons c more =>
    have other := ended c rfl
    simp [other]

theorem scanMinus_append {minus s : Str} (sign : Minus minus) (whole : ∃ c rest, s = c :: rest ∧ isDigit c = true) :
    scanMinus (minus ++ s) = (minus, s) := by
  rcases sign with rfl | ⟨c, rfl, value⟩
  · obtain ⟨c, rest, rfl, digit⟩ := whole
    have other : c.val ≠ 0x2D := fun value => by simp [isDigit, value] at digit
    simp [scanMinus, other]
  · simp [scanMinus, value]

theorem scanWhole_append {whole rest : Str} (number : Whole whole)
    (ended : ∀ c, rest.head? = some c → isDigit c = false) : scanWhole (whole ++ rest) = some (whole, rest) := by
  obtain ⟨c, more, rfl, ⟨-, digits⟩, alone⟩ := number
  rw [List.cons_append, scanWhole]
  by_cases zero : c.val = 48
  · rw [if_pos zero, alone zero]
    rfl
  · obtain ⟨taken, dropped⟩ := while_digits (fun d member => digits d (List.mem_cons_of_mem _ member)) ended
    rw [if_neg zero, if_pos (digits c (by simp)), taken, dropped]

theorem scanFraction_append {fraction rest : Str} (part : Fraction fraction)
    (ended : ∀ c, rest.head? = some c → isDigit c = false ∧ c.val ≠ 0x2E) :
    scanFraction (fraction ++ rest) = (fraction, rest) := by
  rcases part with rfl | ⟨point, ds, rfl, value, some_digit, digits⟩
  · cases rest with
    | nil => rfl
    | cons c more =>
      have other := (ended c rfl).2
      simp [scanFraction, other]
  · obtain ⟨taken, dropped⟩ := while_digits digits fun c head => (ended c head).1
    rw [List.cons_append, scanFraction, taken, dropped, if_pos ⟨value, some_digit⟩]

theorem scanSign_append {sign ds rest : Str} (part : Sign sign) (number : Digits ds) :
    scanSign (sign ++ (ds ++ rest)) = (sign, ds ++ rest) := by
  rcases part with rfl | ⟨c, rfl, value⟩
  · obtain ⟨some_digit, digits⟩ := number
    obtain ⟨d, more, rfl⟩ := List.exists_cons_of_ne_nil some_digit
    have digit := digits d (by simp)
    have other : ¬ (d.val = 0x2D ∨ d.val = 0x2B) := by
      rintro (value | value) <;> simp [isDigit, value] at digit
    simp [scanSign, other]
  · simp [scanSign, value]

theorem scanExponent_append {exponent rest : Str} (part : Exponent exponent) (ended : Ends rest) :
    scanExponent (exponent ++ rest) = (exponent, rest) := by
  rcases part with rfl | ⟨e, sign, ds, rfl, value, signed, number⟩
  · cases rest with
    | nil => rfl
    | cons c more =>
      obtain ⟨-, -, lower, upper⟩ := ended c rfl
      simp [scanExponent, lower, upper]
  · obtain ⟨taken, dropped⟩ := while_digits number.2 fun c head => (ended c head).1
    rw [List.cons_append, List.append_assoc, scanExponent, scanSign_append signed number]
    simp only [taken, dropped, if_pos (And.intro value number.1)]

/-- No digit and no point comes after the digits before the point or the exponent. -/
private theorem ended_exponent {exponent rest : Str} (part : Exponent exponent) (ended : Ends rest) (c : CodePoint)
    (head : (exponent ++ rest).head? = some c) : isDigit c = false ∧ c.val ≠ 0x2E := by
  rcases part with rfl | ⟨e, sign, ds, rfl, value, -, -⟩
  · exact ⟨(ended c head).1, (ended c head).2.1⟩
  · obtain rfl : e = c := Option.some.inj head
    rcases value with value | value <;> simp [isDigit, value]

private theorem over_fraction {fraction after : Str} (part : Fraction fraction)
    (ended : ∀ c, after.head? = some c → isDigit c = false ∧ c.val ≠ 0x2E) (c : CodePoint)
    (head : (fraction ++ after).head? = some c) : isDigit c = false := by
  rcases part with rfl | ⟨point, ds, rfl, value, -⟩
  · exact (ended c head).1
  · obtain rfl : point = c := Option.some.inj head
    simp [isDigit, value]

/-- The parts of a number. -/
structure NumberText (minus whole fraction exponent : Str) : Prop where
  minus : Minus minus
  whole : Whole whole
  fraction : Fraction fraction
  exponent : Exponent exponent

theorem scanNumber_append (reader : Reader ε) {minus whole fraction exponent rest : Str}
    (number : NumberText minus whole fraction exponent) (ended : Ends rest) :
    scanNumber reader (minus ++ (whole ++ (fraction ++ (exponent ++ rest)))) =
      (readNumber reader (minus ++ whole) fraction exponent).map (·, rest) := by
  have ended_exponent := ended_exponent number.exponent ended
  have over_fraction := over_fraction number.fraction ended_exponent
  have begins : ∃ c more, whole ++ (fraction ++ (exponent ++ rest)) = c :: more ∧ isDigit c = true := by
    obtain ⟨c, more, rfl, ⟨-, digits⟩, -⟩ := number.whole
    exact ⟨c, _, rfl, digits c (by simp)⟩
  simp only [scanNumber, scanMinus_append number.minus begins, scanWhole_append number.whole over_fraction,
    scanFraction_append number.fraction ended_exponent, scanExponent_append number.exponent ended]

theorem whole_numeral (n : Nat) : Whole (Numerals.numeral 10 n) := by
  have digits : Digits (Numerals.numeral 10 n) := by
    refine ⟨Numerals.numeral_ne_nil 10 n, fun c member => ?_⟩
    obtain ⟨d, small, rfl⟩ := Numerals.mem_numeral (by omega) member
    have value := Numerals.digitChar_val (d := d) (by omega)
    rw [if_pos small] at value
    simp [isDigit, value]
    omega
  obtain ⟨c, rest, text⟩ := List.exists_cons_of_ne_nil digits.1
  refine ⟨c, rest, text, digits, fun zero => ?_⟩
  by_cases none : n = 0
  · rw [Numerals.numeral, if_pos none] at text
    exact (List.cons.inj text).2.symm
  · -- the first digit is the last of `Nat.digits`
    exfalso
    rw [Numerals.numeral, if_neg none] at text
    have some_digit : Nat.digits 10 n ≠ [] := Nat.digits_ne_nil_iff_ne_zero.mpr none
    have first : ((Nat.digits 10 n).reverse.map Numerals.digitChar).head? = some c := by rw [text]; rfl
    rw [List.head?_map, List.head?_reverse, List.getLast?_eq_some_getLast some_digit, Option.map_some,
      Option.some.injEq] at first
    have small : (Nat.digits 10 n).getLast some_digit < 10 := Nat.digits_lt_base (by omega) (List.getLast_mem some_digit)
    have value := Numerals.digitChar_val (d := (Nat.digits 10 n).getLast some_digit) (by omega)
    rw [first, zero, if_pos small] at value
    exact Nat.getLast_digit_ne_zero 10 none (by omega)

/-- A printed integer. -/
theorem scanNumber_intText (reader : Reader ε) (n : Int) {rest : Str} (ended : Ends rest) :
    scanNumber reader (Numerals.intText n ++ rest) = (reader.integer (Numerals.intText n)).map (·, rest) := by
  have parts (minus : Str) (sign : Minus minus) :
      scanNumber reader (minus ++ (Numerals.numeral 10 n.natAbs ++ rest)) =
        (reader.integer (minus ++ Numerals.numeral 10 n.natAbs)).map (·, rest) := by
    have number : NumberText minus (Numerals.numeral 10 n.natAbs) [] [] := ⟨sign, whole_numeral _, .inl rfl, .inl rfl⟩
    simpa [readNumber] using scanNumber_append reader number ended
  unfold Numerals.intText
  split
  · exact parts [CodePoint.ofChar '-'] (.inr ⟨_, rfl, by decide⟩)
  · exact parts [] (.inl rfl)

/-! ### The fuel is enough -/

theorem length_skip (s : Str) : (skip s).length ≤ s.length := (List.dropWhile_sublist isWhite).length_le

theorem expect_ok {reader : Reader ε} {n : Nat} {s rest : Str} (ok : expect reader n s = .ok rest) :
    ∃ c, s = c :: rest ∧ c.val = n := by
  cases s with
  | nil => cases ok
  | cons c more =>
    rw [expect] at ok
    split at ok
    · next value =>
      cases ok
      exact ⟨c, rfl, value⟩
    · cases ok

theorem length_expect {reader : Reader ε} {n : Nat} {s rest : Str} (ok : expect reader n s = .ok rest) :
    rest.length < s.length := by
  obtain ⟨c, rfl, -⟩ := expect_ok ok
  simp

theorem small_shortEscape {e d : CodePoint} (escapes : shortEscape e = some d) : d = e ∨ d.val < 0x20 := by
  have control {n : Nat} (small : n < 0x20) (same : some (CodePoint.ofNat n) = some d) : d = e ∨ d.val < 0x20 := by
    rw [← Option.some.inj same, CodePoint.ofNat_val (by omega)]
    exact .inr small
  unfold shortEscape at escapes
  split at escapes
  · exact .inl (Option.some.inj escapes).symm
  split at escapes
  · exact control (by omega) escapes
  split at escapes
  · exact control (by omega) escapes
  split at escapes
  · exact control (by omega) escapes
  split at escapes
  · exact control (by omega) escapes
  split at escapes
  · exact control (by omega) escapes
  · cases escapes

/-- A scan is over at a quotation mark, or it takes some characters for one, which is
    escaped, a control character or one of them. -/
theorem scanString_cases {s after : Str} {scanned : List Scanned} (ok : scanString s = some (scanned, after)) :
    (∃ mark, s = mark :: after) ∧ scanned = [] ∨
      ∃ taken rest first more, s = taken ++ rest ∧ taken ≠ [] ∧ scanned = first :: more ∧
        scanString rest = some (more, after) ∧ (first.1 = true ∨ first.2 ∈ taken ∨ first.2.val < 0x20) := by
  -- what goes on with the characters after the first ones
  have goes_on (taken rest : Str) (first : Scanned) (text : s = taken ++ rest) (some_char : taken ≠ [])
      (source : first.1 = true ∨ first.2 ∈ taken ∨ first.2.val < 0x20)
      (found : before [first] (scanString rest) = some (scanned, after)) :
      ∃ taken rest first more, s = taken ++ rest ∧ taken ≠ [] ∧ scanned = first :: more ∧
        scanString rest = some (more, after) ∧ (first.1 = true ∨ first.2 ∈ taken ∨ first.2.val < 0x20) := by
    obtain ⟨⟨more, final⟩, rest_ok, same⟩ := Option.map_eq_some_iff.mp found
    cases same
    exact ⟨taken, rest, first, more, text, some_char, rfl, rest_ok, source⟩
  rw [scanString.eq_def] at ok
  split at ok
  · cases ok
  · next c rest =>
    split at ok
    · cases ok
      exact .inl ⟨⟨c, rfl⟩, rfl⟩
    split at ok
    · split at ok
      · cases ok
      · next e after' =>
        split at ok
        · split at ok
          · next h₁ h₂ h₃ h₄ more =>
            cases read : hexQuad h₁ h₂ h₃ h₄ with
            | none => simp [read] at ok
            | some code =>
              refine .inr (goes_on [c, e, h₁, h₂, h₃, h₄] more (true, CodePoint.ofNat code) rfl (by simp) (.inl rfl) ?_)
              rw [← ok, read, before]
              cases scanString more <;> rfl
          · cases ok
        · cases escapes : shortEscape e with
          | none => simp [escapes] at ok
          | some d =>
            have source : d ∈ [c, e] ∨ d.val < 0x20 := (small_shortEscape escapes).imp_left fun same => by simp [same]
            refine .inr (goes_on [c, e] after' (false, d) rfl (by simp) (.inr source) ?_)
            rw [← ok, escapes, before]
            cases scanString after' <;> rfl
    split at ok
    · cases ok
    · refine .inr (goes_on [c] rest (false, c) rfl (by simp) (.inr (.inl (by simp))) ?_)
      rw [← ok, before]
      cases scanString rest <;> rfl

theorem length_scanString {s after : Str} {scanned : List Scanned} (ok : scanString s = some (scanned, after)) :
    after.length < s.length := by
  induction scanned generalizing s with
  | nil =>
    rcases scanString_cases ok with ⟨⟨mark, rfl⟩, -⟩ | ⟨_, _, _, _, _, _, same, _⟩
    · exact Nat.lt_succ_self _
    · cases same
  | cons first more ih =>
    rcases scanString_cases ok with ⟨-, same⟩ | ⟨taken, rest, first', more', rfl, -, same, rest_ok, -⟩
    · cases same
    · cases same
      rw [List.length_append]
      exact (ih rest_ok).trans_le (Nat.le_add_left _ _)

theorem length_scanQuoted {reader : Reader ε} {s text after : Str} (ok : scanQuoted reader s = .ok (text, after)) :
    after.length < s.length := by
  cases s with
  | nil => cases ok
  | cons c rest =>
    rw [scanQuoted] at ok
    split at ok
    · cases scans : scanString rest with
      | none => simp [scans] at ok
      | some found =>
        obtain ⟨scanned, final⟩ := found
        rw [scans] at ok
        cases ok
        exact (length_scanString scans).trans (Nat.lt_succ_self _)
    · cases ok

theorem scanMinus_spec (s : Str) : s = (scanMinus s).1 ++ (scanMinus s).2 ∧ Minus (scanMinus s).1 := by
  fun_cases scanMinus s with
  | case1 => exact ⟨rfl, .inl rfl⟩
  | case2 c rest value => exact ⟨rfl, .inr ⟨c, rfl, value⟩⟩
  | case3 c rest other => exact ⟨rfl, .inl rfl⟩

theorem scanWhole_spec {s whole rest : Str} (ok : scanWhole s = some (whole, rest)) : s = whole ++ rest ∧ Whole whole := by
  cases s with
  | nil => cases ok
  | cons c more =>
    rw [scanWhole] at ok
    split at ok
    · next zero =>
      cases ok
      exact ⟨rfl, c, [], rfl, ⟨by simp, by simp [isDigit, zero]⟩, fun _ => rfl⟩
    split at ok
    · next nonzero digit =>
      cases ok
      refine ⟨by simp, c, _, rfl, ⟨List.cons_ne_nil _ _, ?_⟩, fun zero => absurd zero nonzero⟩
      intro d member
      rcases List.mem_cons.mp member with rfl | inside
      · exact digit
      · exact List.mem_takeWhile_imp inside
    · cases ok

theorem digits_takeWhile {s : Str} (some_digit : s.takeWhile isDigit ≠ []) : Digits (s.takeWhile isDigit) :=
  ⟨some_digit, fun _ inside => List.mem_takeWhile_imp inside⟩

theorem scanFraction_spec (s : Str) : s = (scanFraction s).1 ++ (scanFraction s).2 ∧ Fraction (scanFraction s).1 := by
  fun_cases scanFraction s with
  | case1 => exact ⟨rfl, .inl rfl⟩
  | case2 c rest taken => exact ⟨by simp, .inr ⟨c, _, rfl, taken.1, digits_takeWhile taken.2⟩⟩
  | case3 c rest taken => exact ⟨rfl, .inl rfl⟩

theorem scanSign_spec (s : Str) : s = (scanSign s).1 ++ (scanSign s).2 ∧ Sign (scanSign s).1 := by
  fun_cases scanSign s with
  | case1 => exact ⟨rfl, .inl rfl⟩
  | case2 c rest value => exact ⟨rfl, .inr ⟨c, rfl, value⟩⟩
  | case3 c rest other => exact ⟨rfl, .inl rfl⟩

theorem scanExponent_spec (s : Str) : s = (scanExponent s).1 ++ (scanExponent s).2 ∧ Exponent (scanExponent s).1 := by
  cases s with
  | nil => exact ⟨rfl, .inl rfl⟩
  | cons c rest =>
    obtain ⟨text, sign⟩ := scanSign_spec rest
    simp only [scanExponent]
    split
    · next taken =>
      refine ⟨?_, .inr ⟨c, _, _, rfl, taken.1, sign, digits_takeWhile taken.2⟩⟩
      rw [List.cons_append, List.append_assoc, List.takeWhile_append_dropWhile, ← text]
    · exact ⟨rfl, .inl rfl⟩

/-- What is scanned as a number is one, up to what is left. -/
theorem scanNumber_spec {reader : Reader ε} {s after : Str} {value : Json}
    (ok : scanNumber reader s = .ok (value, after)) :
    ∃ minus whole fraction exponent, NumberText minus whole fraction exponent ∧
      s = minus ++ (whole ++ (fraction ++ (exponent ++ after))) ∧
      readNumber reader (minus ++ whole) fraction exponent = .ok value := by
  obtain ⟨text, minus⟩ := scanMinus_spec s
  cases found : scanWhole (scanMinus s).2 with
  | none => simp [scanNumber, found] at ok
  | some parts =>
    obtain ⟨digits, rest⟩ := parts
    obtain ⟨text', whole⟩ := scanWhole_spec found
    obtain ⟨text₂, fraction⟩ := scanFraction_spec rest
    obtain ⟨text₃, exponent⟩ := scanExponent_spec (scanFraction rest).2
    simp only [scanNumber, found] at ok
    obtain ⟨number, read, same⟩ := ok_of_map ok
    cases same
    refine ⟨_, digits, _, _, ⟨minus, whole, fraction, exponent⟩, ?_, read⟩
    rw [← text₃, ← text₂, ← text', ← text]

/-- A bare value is a word or a number, up to what is left. -/
theorem scanBare_cases {reader : Reader ε} {s after : Str} {value : Json}
    (ok : scanBare reader s = .ok (value, after)) :
    (∃ word, (word, value) ∈ reader.words ∧ s = word ++ after) ∨
      ∃ minus whole fraction exponent, NumberText minus whole fraction exponent ∧
        s = minus ++ (whole ++ (fraction ++ (exponent ++ after))) ∧
        readNumber reader (minus ++ whole) fraction exponent = .ok value := by
  unfold scanBare at ok
  split at ok
  · next found word =>
    cases ok
    obtain ⟨entry, member, matched⟩ := List.exists_of_findSome?_eq_some word
    dsimp only at matched
    by_cases begins : entry.1 <+: s
    · rw [if_pos begins] at matched
      cases matched
      exact .inl ⟨entry.1, member, List.prefix_iff_eq_append.mp begins |>.symm⟩
    · rw [if_neg begins] at matched
      cases matched
  · exact .inr (scanNumber_spec ok)

theorem suffix_scanBare {reader : Reader ε} {s after : Str} {value : Json}
    (ok : scanBare reader s = .ok (value, after)) : after <:+ s := by
  rcases scanBare_cases ok with ⟨word, -, rfl⟩ | ⟨minus, whole, fraction, exponent, -, rfl, -⟩
  · exact List.suffix_append word after
  · rw [← List.append_assoc, ← List.append_assoc, ← List.append_assoc]
    exact List.suffix_append _ after

/-- No scan leaves more than it was given. -/
theorem length_scan (reader : Reader ε) (fuel : Nat) :
    (∀ {s after : Str} {value : Json}, scanValue reader fuel s = .ok (value, after) → after.length ≤ s.length) ∧
      (∀ {s after : Str} {items : List Json}, scanItems reader fuel s = .ok (items, after) → after.length ≤ s.length) ∧
      ∀ {s after : Str} {members : List (Str × Json)},
        scanMembers reader fuel s = .ok (members, after) → after.length ≤ s.length := by
  induction fuel with
  | zero => exact ⟨nofun, nofun, nofun⟩
  | succ fuel ih =>
    obtain ⟨values, itemLists, memberLists⟩ := ih
    refine ⟨?_, ?_, ?_⟩
    · intro s after value ok
      cases s with
      | nil => cases ok
      | cons c rest =>
        have inside := (length_skip rest).trans (Nat.le_succ _)
        rw [scanValue] at ok
        split at ok
        · obtain ⟨⟨text, final⟩, quoted, same⟩ := ok_of_map ok
          cases same
          exact (length_scanQuoted quoted).le
        split at ok
        · split at ok
          · next final closed =>
            cases ok
            exact (length_expect closed).le.trans inside
          · obtain ⟨⟨items, final⟩, scans, same⟩ := ok_of_map ok
            cases same
            exact (itemLists scans).trans inside
        split at ok
        · split at ok
          · next final closed =>
            cases ok
            exact (length_expect closed).le.trans inside
          · obtain ⟨⟨members, final⟩, scans, same⟩ := ok_of_map ok
            cases same
            exact (memberLists scans).trans inside
        · exact (suffix_scanBare ok).length_le
    · intro s after items ok
      rw [scanItems] at ok
      obtain ⟨⟨item, left⟩, first, rest_ok⟩ := ok_of_bind ok
      have inside := (length_skip left).trans (values first)
      dsimp only at rest_ok
      split at rest_ok
      · next final closed =>
        cases rest_ok
        exact (length_expect closed).le.trans inside
      · obtain ⟨more, comma, more_ok⟩ := ok_of_bind rest_ok
        obtain ⟨⟨later, final⟩, scans, same⟩ := ok_of_bind more_ok
        cases same
        exact (itemLists scans).trans ((length_skip more).trans ((length_expect comma).le.trans inside))
    · intro s after members ok
      rw [scanMembers] at ok
      obtain ⟨⟨key, named⟩, quoted, named_ok⟩ := ok_of_bind ok
      obtain ⟨colon, mark, colon_ok⟩ := ok_of_bind named_ok
      obtain ⟨⟨value, left⟩, first, rest_ok⟩ := ok_of_bind colon_ok
      have inside : (skip left).length ≤ s.length := by
        calc (skip left).length ≤ left.length := length_skip left
          _ ≤ (skip colon).length := values first
          _ ≤ colon.length := length_skip colon
          _ ≤ (skip named).length := (length_expect mark).le
          _ ≤ named.length := length_skip named
          _ ≤ s.length := (length_scanQuoted quoted).le
      dsimp only at rest_ok
      split at rest_ok
      · next final closed =>
        cases rest_ok
        exact (length_expect closed).le.trans inside
      · obtain ⟨more, comma, more_ok⟩ := ok_of_bind rest_ok
        obtain ⟨⟨later, final⟩, scans, same⟩ := ok_of_bind more_ok
        cases same
        exact (memberLists scans).trans ((length_skip more).trans ((length_expect comma).le.trans inside))

/-- Calls that are followed by the same on every result. -/
theorem bind_congr_ok {α β : Type} {first : Except ε α} {next other : α → Except ε β}
    (same : ∀ value, first = .ok value → next value = other value) : first >>= next = first >>= other := by
  cases first with
  | error e => rfl
  | ok value => exact same value rfl

private theorem fuel_step (reader : Reader ε) (fuel : Nat) :
    (∀ s : Str, 2 * s.length < fuel → scanValue reader (fuel + 1) s = scanValue reader fuel s) ∧
      (∀ s : Str, 2 * s.length + 1 < fuel → scanItems reader (fuel + 1) s = scanItems reader fuel s) ∧
      ∀ s : Str, 2 * s.length + 1 < fuel → scanMembers reader (fuel + 1) s = scanMembers reader fuel s := by
  induction fuel with
  | zero => exact ⟨nofun, nofun, nofun⟩
  | succ fuel ih =>
    obtain ⟨values, itemLists, memberLists⟩ := ih
    refine ⟨?_, ?_, ?_⟩
    · intro s small
      cases s with
      | nil => rfl
      | cons c rest =>
        have inside := length_skip rest
        rw [List.length_cons] at small
        rw [scanValue, scanValue, itemLists (skip rest) (by omega), memberLists (skip rest) (by omega)]
    · intro s small
      rw [scanItems, scanItems, values s (by omega)]
      refine bind_congr_ok fun ⟨item, left⟩ first => ?_
      dsimp only
      cases closed : expect reader 0x5D (skip left) with
      | ok final => rfl
      | error e =>
        refine bind_congr_ok fun more comma => ?_
        have shorter := (length_scan reader fuel).1 first
        have skipped := length_skip left
        have consumed := length_expect comma
        have final := length_skip more
        rw [itemLists (skip more) (by omega)]
    · intro s small
      rw [scanMembers, scanMembers]
      refine bind_congr_ok fun ⟨key, named⟩ quoted => bind_congr_ok fun colon mark => ?_
      have opened := length_scanQuoted quoted
      have passed := length_skip named
      have marked := length_expect mark
      have begun := length_skip colon
      dsimp only at *
      rw [values (skip colon) (by omega)]
      refine bind_congr_ok fun ⟨value, left⟩ first => ?_
      dsimp only
      cases closed : expect reader 0x7D (skip left) with
      | ok final => rfl
      | error e =>
        refine bind_congr_ok fun more comma => ?_
        have shorter := (length_scan reader fuel).1 first
        have skipped := length_skip left
        have consumed := length_expect comma
        have final := length_skip more
        rw [memberLists (skip more) (by omega)]

/-- More fuel than enough changes nothing: the scan is never cut short. -/
theorem scanValue_fuel (reader : Reader ε) {fuel : Nat} {s : Str} (plenty : enough s ≤ fuel) :
    scanValue reader fuel s = scanValue reader (enough s) s := by
  induction fuel, plenty using Nat.le_induction with
  | base => rfl
  | succ fuel more ih => rw [(fuel_step reader fuel).1 s more, ih]

end Hde.JsonScan
