import Hde.Files
import Hde.Rereading

/-!
`json.loads` as CPython computes it, with the reading of a `float` as a parameter. It
joins the surrogates of a pair that were written as two escapes, keeps the last of
several members with one key and refuses an integer of too many digits, so that a value
comes back from its document as it was exactly if it is settled (`roundTrips_iff`), in
any layout. What is read from a file is settled (`settled_loads`).
-/
namespace Hde.Loading
open Hde.Text Hde.Utf8 Hde.Utf16 Hde.Numerals Hde.Dicts Hde.JsonText Hde.JsonScan Hde.Rereading Hde.Files

/-- Two escaped surrogates that stand side by side are one character. -/
def joinEscapes : List Scanned → Str
  | [] => []
  | [(_, c)] => [c]
  | (hexed, c) :: (hexed', next) :: rest =>
    if (hexed = true ∧ hexed' = true) ∧ High c ∧ Low next then pair c next :: joinEscapes rest
    else c :: joinEscapes ((hexed', next) :: rest)

def notANumber : FloatText := ⟨lit "NaN", by decide, by decide⟩
def infinity : FloatText := ⟨lit "Infinity", by decide, by decide⟩
def minusInfinity : FloatText := ⟨lit "-Infinity", by decide, by decide⟩

/-- Prints as one of the words for what is not a finite number. -/
def Unbounded (x : FloatText) : Prop := x = notANumber ∨ x = infinity ∨ x = minusInfinity

theorem floatText_ext {x y : FloatText} (same : x.text = y.text) : x = y := by
  cases x
  cases y
  cases same
  rfl

instance : DecidableEq FloatText := fun x y => decidable_of_iff (x.text = y.text) ⟨floatText_ext, fun same => same ▸ rfl⟩

instance : DecidablePred Unbounded := fun x => inferInstanceAs (Decidable (x = notANumber ∨ x = infinity ∨ x = minusInfinity))

/-- `float(s)`, as its `repr`: that is the word for an infinity, or a numeral that is
    read as the same number again. -/
structure FloatReading where
  read : Str → FloatText
  stable : ∀ s, FloatNumeral s → Unbounded (read s) ∨ FloatNumeral (read s).text ∧ read (read s).text = read s

/-- The `float`s that are read from their own `repr`. -/
def Canonical (floats : FloatReading) (x : FloatText) : Prop :=
  Unbounded x ∨ FloatNumeral x.text ∧ floats.read x.text = x

def words : List (Str × Json) :=
  [(lit "null", .null), (lit "true", .bool true), (lit "false", .bool false), (lit "NaN", .float notANumber),
    (lit "Infinity", .float infinity), (lit "-Infinity", .float minusInfinity)]

/-- `json.JSONDecoder`. -/
def decoder (floats : FloatReading) : Reader Failure where
  invalid := .jsonDecodeError
  string := joinEscapes
  integer s := ((intOf s).mapError fun e => .raised (.valueError e)).map .int
  fraction s := .ok (.float (floats.read s))
  words := words

/-- `json.loads`. -/
def loads (floats : FloatReading) : Loads := scan (decoder floats)

mutual

/-- The values that come back from their documents: joined strings, keys once each,
    integers within the limit and canonical `float`s. -/
def Settled (floats : FloatReading) : Json → Prop
  | .int n => WithinLimit n
  | .float x => Canonical floats x
  | .str s => Joined s
  | .arr items => SettledItems floats items
  | .obj members => (members.map Prod.fst).Nodup ∧ SettledMembers floats members
  | _ => True

def SettledItems (floats : FloatReading) : List Json → Prop
  | [] => True
  | item :: more => Settled floats item ∧ SettledItems floats more

def SettledMembers (floats : FloatReading) : List (Str × Json) → Prop
  | [] => True
  | (key, value) :: more => Joined key ∧ Settled floats value ∧ SettledMembers floats more

end

variable {floats : FloatReading}

theorem usual_decoder (floats : FloatReading) : Usual (decoder floats) where
  apart := by
    have apart : (words.map Prod.fst).Pairwise fun a b => ¬ a <+: b ∧ ¬ b <+: a := by decide
    exact List.pairwise_map.mp apart
  bare := by
    have bare : ∀ word ∈ words.map Prod.fst, (∃ c, word.head? = some c ∧ isWhite c = false ∧ c.val ≠ 0x22 ∧
        c.val ≠ 0x5B ∧ c.val ≠ 0x5D ∧ c.val ≠ 0x7B) ∧ numeric word = false := by decide
    intro entry member
    obtain ⟨⟨c, head, clear⟩, other⟩ := bare _ (List.mem_map_of_mem member)
    refine ⟨?_, other⟩
    cases shape : entry.1 with
    | nil => rw [shape] at head; cases head
    | cons d rest =>
      rw [shape] at head
      obtain rfl : d = c := Option.some.inj head
      exact ⟨d, rest, rfl, clear⟩
  null := by simp [decoder, words]
  yes := by simp [decoder, words]
  no := by simp [decoder, words]

/-! ### Strings -/

/-- If nothing but escapes gave surrogates, the escapes are joined like the pairs of a text. -/
theorem joinEscapes_eq {scanned : List Scanned} (escaped : ∀ entry ∈ scanned, Surrogate entry.2 → entry.1 = true) :
    joinEscapes scanned = joinPairs (scanned.map Prod.snd) := by
  fun_induction joinEscapes scanned with
  | case1 => rfl
  | case2 hexed c => rfl
  | case3 hexed c hexed' next rest both ih =>
    rw [List.map_cons, List.map_cons, joinPairs_pair both.2.1 both.2.2,
      ih fun entry member => escaped entry (by simp [member])]
  | case4 hexed c hexed' next rest apart ih =>
    have unpaired : ¬ (High c ∧ Low next) := by
      rintro ⟨high, low⟩
      refine apart ⟨⟨?_, ?_⟩, high, low⟩
      · exact escaped (hexed, c) (by simp) (surrogate_iff.mpr (.inl high))
      · exact escaped (hexed', next) (by simp) (surrogate_iff.mpr (.inr low))
    have step : joinPairs (c :: next :: rest.map Prod.snd) = c :: joinPairs (next :: rest.map Prod.snd) :=
      joinPairs_cons fun first head => Option.some.inj head ▸ unpaired
    rw [ih fun entry member => escaped entry (List.mem_cons_of_mem _ member)]
    exact step.symm

theorem hexed_of_surrogate {c : CodePoint} (surrogate : Surrogate c) : Hexed c := by
  obtain ⟨low, high⟩ := surrogate
  refine ⟨by omega, ?_⟩
  simp only [List.mem_cons, List.not_mem_nil, or_false]
  omega

/-- The characters that are scanned are the units. -/
theorem map_scannedText (s : Str) : (scannedText s).map Prod.snd = s.flatMap split := by
  have each (c : CodePoint) : (scannedChar c).map Prod.snd = split c := by
    unfold scannedChar split
    by_cases small : c.val < 0x10000
    · rw [if_pos small, if_pos small, List.map_singleton]
    · rw [if_neg small, if_neg small, List.map_cons, List.map_singleton]
  rw [scannedText, List.map_flatMap]
  exact List.flatMap_congr fun c _ => each c

theorem joinEscapes_scannedText (s : Str) : joinEscapes (scannedText s) = joinPairs s := by
  rw [joinEscapes_eq, map_scannedText, joinPairs_split]
  intro entry member surrogate
  obtain ⟨c, -, part⟩ := List.mem_flatMap.mp member
  unfold scannedChar at part
  split at part
  · have same : entry = (decide (Hexed c), c) := List.mem_singleton.mp part
    rw [same] at surrogate ⊢
    exact decide_eq_true (hexed_of_surrogate surrogate)
  · rcases List.mem_pair.mp part with same | same
    · rw [same]
    · rw [same]

/-- In a text with no surrogates, only an escape gives one. -/
theorem escaped_scanString {s after : Str} {scanned : List Scanned} (scalars : ∀ c ∈ s, ¬ Surrogate c)
    (ok : scanString s = some (scanned, after)) :
    (∀ entry ∈ scanned, Surrogate entry.2 → entry.1 = true) ∧ ∀ c ∈ after, ¬ Surrogate c := by
  induction scanned generalizing s with
  | nil =>
    rcases scanString_cases ok with ⟨⟨mark, rfl⟩, -⟩ | ⟨_, _, _, _, _, _, same, _⟩
    · exact ⟨by simp, fun c member => scalars c (List.mem_cons_of_mem _ member)⟩
    · cases same
  | cons first more ih =>
    rcases scanString_cases ok with ⟨-, same⟩ | ⟨taken, rest, first', more', rfl, -, same, rest_ok, source⟩
    · cases same
    · cases same
      obtain ⟨later, remains⟩ := ih (fun c member => scalars c (List.mem_append_right _ member)) rest_ok
      refine ⟨fun entry member surrogate => ?_, remains⟩
      rcases List.mem_cons.mp member with rfl | inside
      · rcases source with hexed | plain | control
        · exact hexed
        · exact absurd surrogate (scalars _ (List.mem_append_left _ plain))
        · have := surrogate.1
          omega
      · exact later entry inside surrogate

/-! ### Reading what was printed -/

theorem settledMembers_iff {members : List (Str × Json)} :
    SettledMembers floats members ↔ ∀ entry ∈ members, Joined entry.1 ∧ Settled floats entry.2 := by
  induction members with
  | nil => simp [SettledMembers]
  | cons entry more ih => simp [SettledMembers, ih, and_assoc]

theorem mem_words {x : FloatText} (unbounded : Unbounded x) : (x.text, Json.float x) ∈ words := by
  rcases unbounded with rfl | rfl | rfl
  · simp [words, notANumber]
  · simp [words, infinity]
  · simp [words, minusInfinity]

theorem literal_of_canonical {x : FloatText} (canonical : Canonical floats x) : Literal (decoder floats) x :=
  canonical.imp (fun unbounded => List.mem_map_of_mem (f := Prod.fst) (mem_words unbounded)) fun both => .inl both.1

theorem reread_float {x : FloatText} (canonical : Canonical floats x) :
    reread (decoder floats) (.float x) = .ok (.float x) := by
  rcases canonical with unbounded | ⟨numeral, same⟩
  · rw [reread, readFloat, lookup_of_mem (usual_decoder floats) (mem_words unbounded)]
  · rw [reread, readFloat, lookup_of_numeral (usual_decoder floats) numeral]
    dsimp only
    rw [if_pos (numeric_numeral numeral)]
    exact congrArg (fun x => Except.ok (Json.float x)) same

mutual

theorem canonical_of_settled : ∀ {value : Json}, Settled floats value → Floats (Canonical floats) value
  | .null, _ | .bool _, _ | .int _, _ | .str _, _ => trivial
  | .float _, settled => settled
  | .arr _, settled => canonical_of_settledItems settled
  | .obj _, settled => canonical_of_settledMembers settled.2

theorem canonical_of_settledItems : ∀ {items : List Json}, SettledItems floats items →
    FloatsItems (Canonical floats) items
  | [], _ => trivial
  | _ :: _, settled => ⟨canonical_of_settled settled.1, canonical_of_settledItems settled.2⟩

theorem canonical_of_settledMembers : ∀ {members : List (Str × Json)}, SettledMembers floats members →
    FloatsMembers (Canonical floats) members
  | [], _ => trivial
  | (_, _) :: _, settled => ⟨canonical_of_settled settled.2.1, canonical_of_settledMembers settled.2.2⟩

end

theorem string_settled {s : Str} (joined : Joined s) : (decoder floats).string (scannedText s) = s :=
  (joinEscapes_scannedText s).trans (joinPairs_eq_self_iff.mpr joined)

mutual

/-- A settled value is read as it was printed. -/
theorem reread_settled : ∀ {value : Json}, Settled floats value → reread (decoder floats) value = .ok value
  | .null, _ => rfl
  | .bool _, _ => rfl
  | .int n, settled => by
    show ((intOf (intText n)).mapError _).map Json.int = .ok (.int n)
    rw [intOf_intText settled]
    rfl
  | .float _, settled => reread_float settled
  | .str s, settled => by rw [reread, string_settled settled]
  | .arr items, settled => by
    rw [reread, reread_settledItems settled]
    rfl
  | .obj members, settled => by
    rw [reread, reread_settledMembers settled.2, Except.map, entries_collected settled.1]

theorem reread_settledItems : ∀ {items : List Json}, SettledItems floats items →
    rereadItems (decoder floats) items = .ok items
  | [], _ => rfl
  | item :: more, settled => by
    rw [rereadItems, reread_settled settled.1, reread_settledItems settled.2]
    rfl

theorem reread_settledMembers : ∀ {members : List (Str × Json)}, SettledMembers floats members →
    rereadMembers (decoder floats) members = .ok members
  | [], _ => rfl
  | (key, value) :: more, settled => by
    rw [rereadMembers, reread_settled settled.2.1, reread_settledMembers settled.2.2, string_settled settled.1]
    rfl

end

section Printing
variable {indent : Option Nat}

mutual

/-- A settled value can be printed. -/
theorem dumpsAt_settled (level : Nat) : ∀ {value : Json}, Settled floats value →
    ∃ text, dumpsAt indent level value = .ok text
  | .null, _ => ⟨_, rfl⟩
  | .bool true, _ => ⟨_, rfl⟩
  | .bool false, _ => ⟨_, rfl⟩
  | .int n, settled => ⟨intText n, if_pos settled⟩
  | .float _, _ => ⟨_, rfl⟩
  | .str _, _ => ⟨_, rfl⟩
  | .arr _, settled => by
    rw [dumpsAt, ok_map_iff]
    exact dumpsItems_settled (level + 1) settled
  | .obj _, settled => by
    rw [dumpsAt, ok_map_iff]
    exact dumpsMembers_settled (level + 1) settled.2

theorem dumpsItems_settled (level : Nat) : ∀ {items : List Json}, SettledItems floats items →
    ∃ texts, dumpsItems indent level items = .ok texts
  | [], _ => ⟨_, rfl⟩
  | _ :: _, settled => dumpsItems_cons_iff.mpr ⟨dumpsAt_settled level settled.1, dumpsItems_settled level settled.2⟩

theorem dumpsMembers_settled (level : Nat) : ∀ {members : List (Str × Json)}, SettledMembers floats members →
    ∃ texts, dumpsMembers indent level members = .ok texts
  | [], _ => ⟨_, rfl⟩
  | (_, _) :: _, settled =>
    dumpsMembers_cons_iff.mpr ⟨dumpsAt_settled level settled.2.1, dumpsMembers_settled level settled.2.2⟩

end

/-- A settled value comes back from its document, with white space around it. -/
theorem loads_settled {value : Json} (settled : Settled floats value) {text : Str} (ok : dumps indent value = .ok text)
    {left right : Str} (white : White left ∧ White right) : loads floats (left ++ text ++ right) = .ok value := by
  have literals := (canonical_of_settled settled).mono fun _ => literal_of_canonical
  rw [loads, scan_dumps (usual_decoder floats) ok literals white, reread_settled settled]

theorem roundTrips_settled {value : Json} (settled : Settled floats value) :
    RoundTrips (loads floats) indent value := by
  obtain ⟨text, ok⟩ : ∃ text, dumps indent value = .ok text := dumpsAt_settled 0 settled
  have bare : loads floats ([] ++ text ++ []) = .ok value := loads_settled settled ok ⟨nofun, nofun⟩
  rw [List.nil_append, List.append_nil] at bare
  exact ⟨text, ok, bare⟩

end Printing

/-! ### What is read is settled -/

def Scalars (s : Str) : Prop := ∀ c ∈ s, ¬ Surrogate c

theorem scalars_suffix {s after : Str} (scalars : Scalars s) (suffix : after <:+ s) : Scalars after :=
  fun c member => scalars c (suffix.subset member)

theorem scalars_skip {s : Str} (scalars : Scalars s) : Scalars (skip s) :=
  scalars_suffix scalars (List.dropWhile_suffix isWhite)

theorem scalars_expect {n : Nat} {s rest : Str} (scalars : Scalars s)
    (ok : expect (decoder floats) n s = .ok rest) : Scalars rest := by
  obtain ⟨c, rfl, -⟩ := expect_ok ok
  exact fun d member => scalars d (List.mem_cons_of_mem c member)

theorem joined_scanQuoted {s text after : Str} (scalars : Scalars s)
    (ok : scanQuoted (decoder floats) s = .ok (text, after)) : Joined text ∧ Scalars after := by
  cases s with
  | nil => cases ok
  | cons c rest =>
    rw [scanQuoted] at ok
    split at ok
    · cases scans : scanString rest with
      | none => simp [scans] at ok
      | some found =>
        obtain ⟨scanned, final⟩ := found
        obtain ⟨escaped, remains⟩ := escaped_scanString (fun d member => scalars d (List.mem_cons_of_mem c member)) scans
        rw [scans] at ok
        cases ok
        refine ⟨?_, remains⟩
        show Joined (joinEscapes scanned)
        rw [joinEscapes_eq escaped]
        exact joined_joinPairs _
    · cases ok

theorem settled_word {word : Str} {value : Json} (known : (word, value) ∈ words) : Settled floats value := by
  simp only [words, List.mem_cons, Prod.mk.injEq, List.not_mem_nil, or_false] at known
  rcases known with ⟨-, rfl⟩ | ⟨-, rfl⟩ | ⟨-, rfl⟩ | ⟨-, rfl⟩ | ⟨-, rfl⟩ | ⟨-, rfl⟩
  · trivial
  · trivial
  · trivial
  · exact .inl (.inl rfl)
  · exact .inl (.inr (.inl rfl))
  · exact .inl (.inr (.inr rfl))

theorem settled_scanBare {s after : Str} {value : Json} (ok : scanBare (decoder floats) s = .ok (value, after)) :
    Settled floats value := by
  rcases scanBare_cases ok with ⟨word, known, -⟩ | ⟨minus, whole, fraction, exponent, number, -, read⟩
  · exact settled_word known
  · rw [readNumber] at read
    split at read
    · obtain ⟨n, small, rfl⟩ := ok_of_map read
      cases integer : intOf (minus ++ whole) with
      | error e => rw [integer] at small; cases small
      | ok m =>
        rw [integer] at small
        cases small
        exact withinLimit_of_intOf integer
    · next proper =>
      cases read
      exact floats.stable _ ⟨minus, whole, fraction, exponent, number, rfl, proper⟩

/-- What is scanned in a text with no surrogates is settled. -/
theorem settled_scan (floats : FloatReading) (fuel : Nat) :
    (∀ {s after : Str} {value : Json}, Scalars s → scanValue (decoder floats) fuel s = .ok (value, after) →
        Settled floats value ∧ Scalars after) ∧
      (∀ {s after : Str} {items : List Json}, Scalars s → scanItems (decoder floats) fuel s = .ok (items, after) →
        SettledItems floats items ∧ Scalars after) ∧
      ∀ {s after : Str} {members : List (Str × Json)}, Scalars s →
        scanMembers (decoder floats) fuel s = .ok (members, after) → SettledMembers floats members ∧ Scalars after := by
  induction fuel with
  | zero => exact ⟨nofun, nofun, nofun⟩
  | succ fuel ih =>
    obtain ⟨values, itemLists, memberLists⟩ := ih
    refine ⟨?_, ?_, ?_⟩
    · intro s after value scalars ok
      cases s with
      | nil => cases ok
      | cons c rest =>
        have inside : Scalars (skip rest) := scalars_skip fun d member => scalars d (List.mem_cons_of_mem c member)
        rw [scanValue] at ok
        split at ok
        · obtain ⟨⟨text, final⟩, quoted, same⟩ := ok_of_map ok
          cases same
          exact joined_scanQuoted scalars quoted
        split at ok
        · split at ok
          · next final closed =>
            cases ok
            exact ⟨trivial, scalars_expect inside closed⟩
          · obtain ⟨⟨items, final⟩, scans, same⟩ := ok_of_map ok
            cases same
            exact itemLists inside scans
        split at ok
        · split at ok
          · next final closed =>
            cases ok
            exact ⟨⟨List.nodup_nil, trivial⟩, scalars_expect inside closed⟩
          · obtain ⟨⟨members, final⟩, scans, same⟩ := ok_of_map ok
            cases same
            obtain ⟨each, remains⟩ := memberLists inside scans
            refine ⟨⟨(collected members).distinct, settledMembers_iff.mpr ?_⟩, remains⟩
            exact fun entry member => settledMembers_iff.mp each entry (mem_collected member)
        · exact ⟨settled_scanBare ok, scalars_suffix scalars (suffix_scanBare ok)⟩
    · intro s after items scalars ok
      rw [scanItems] at ok
      obtain ⟨⟨item, left⟩, first, rest_ok⟩ := ok_of_bind ok
      obtain ⟨settled, inside⟩ := values scalars first
      dsimp only at rest_ok
      split at rest_ok
      · next final closed =>
        cases rest_ok
        exact ⟨⟨settled, trivial⟩, scalars_expect (scalars_skip inside) closed⟩
      · obtain ⟨more, comma, more_ok⟩ := ok_of_bind rest_ok
        obtain ⟨⟨later, final⟩, scans, same⟩ := ok_of_bind more_ok
        cases same
        obtain ⟨others, remains⟩ := itemLists (scalars_skip (scalars_expect (scalars_skip inside) comma)) scans
        exact ⟨⟨settled, others⟩, remains⟩
    · intro s after members scalars ok
      rw [scanMembers] at ok
      obtain ⟨⟨key, named⟩, quoted, named_ok⟩ := ok_of_bind ok
      obtain ⟨colon, mark, colon_ok⟩ := ok_of_bind named_ok
      obtain ⟨⟨value, left⟩, first, rest_ok⟩ := ok_of_bind colon_ok
      obtain ⟨joined, unquoted⟩ := joined_scanQuoted scalars quoted
      obtain ⟨settled, inside⟩ := values (scalars_skip (scalars_expect (scalars_skip unquoted) mark)) first
      dsimp only at rest_ok
      split at rest_ok
      · next final closed =>
        cases rest_ok
        exact ⟨⟨joined, settled, trivial⟩, scalars_expect (scalars_skip inside) closed⟩
      · obtain ⟨more, comma, more_ok⟩ := ok_of_bind rest_ok
        obtain ⟨⟨later, final⟩, scans, same⟩ := ok_of_bind more_ok
        cases same
        obtain ⟨others, remains⟩ := memberLists (scalars_skip (scalars_expect (scalars_skip inside) comma)) scans
        exact ⟨⟨joined, settled, others⟩, remains⟩

theorem settled_loads {text : Str} (scalars : Scalars text) {value : Json} (ok : loads floats text = .ok value) :
    Settled floats value := by
  obtain ⟨⟨result, after⟩, scans, rest_ok⟩ := ok_of_bind ok
  dsimp only at rest_ok
  split at rest_ok
  · cases rest_ok
    exact ((settled_scan floats _).1 (scalars_skip scalars) scans).1
  · cases rest_ok

theorem scalars_printed {indent : Option Nat} {text : Str} (printed : Printed indent text) : Scalars text :=
  fun c member => scalar_of_inside (printed.inside c member)

/-- A value comes back from its document if and only if it is settled. -/
theorem roundTrips_iff {indent : Option Nat} {value : Json} :
    RoundTrips (loads floats) indent value ↔ Settled floats value := by
  constructor
  · rintro ⟨text, ok, read⟩
    exact settled_loads (scalars_printed (printed ok)) read
  · exact roundTrips_settled

/-! ### Numerals as their own `repr` -/

theorem visible_numeral {s : Str} (numeral : FloatNumeral s) : s ≠ [] ∧ ∀ c ∈ s, Visible c := by
  have digit {c : CodePoint} (digit : isDigit c = true) : Visible c := by
    simp only [isDigit, Bool.and_eq_true, decide_eq_true_eq] at digit
    unfold Visible
    omega
  have mark {c : CodePoint} {n : Nat} (value : c.val = n) (inside : 0x21 ≤ n ∧ n ≤ 0x7E) : Visible c := by
    unfold Visible
    rwa [value]
  obtain ⟨minus, whole, fraction, exponent, ⟨negative, ⟨first, rest, start, digits, -⟩, decimal, scaled⟩, rfl, -⟩ := numeral
  refine ⟨by simp [start], fun c member => ?_⟩
  simp only [List.mem_append] at member
  rcases member with ((inside | inside) | inside) | inside
  · rcases negative with rfl | ⟨m, rfl, value⟩
    · cases inside
    · rw [List.mem_singleton.mp inside]
      exact mark value (by omega)
  · exact digit (digits.2 c inside)
  · rcases decimal with rfl | ⟨point, ds, rfl, value, places⟩
    · cases inside
    · rcases List.mem_cons.mp inside with rfl | later
      · exact mark value (by omega)
      · exact digit (places.2 c later)
  · rcases scaled with rfl | ⟨e, sign, ds, rfl, value, signed, power⟩
    · cases inside
    · rcases List.mem_cons.mp inside with rfl | later
      · rcases value with lower | upper
        · exact mark lower (by omega)
        · exact mark upper (by omega)
      rcases List.mem_append.mp later with inner | digits
      · rcases signed with rfl | ⟨m, rfl, minus | plus⟩
        · cases inner
        · rw [List.mem_singleton.mp inner]
          exact mark minus (by omega)
        · rw [List.mem_singleton.mp inner]
          exact mark plus (by omega)
      · exact digit (power.2 c digits)

/-- The reading that keeps each numeral: right for those that are a `repr`. -/
def verbatim : FloatReading where
  read s := if shape : s ≠ [] ∧ ∀ c ∈ s, Visible c then ⟨s, shape.1, shape.2⟩ else notANumber
  stable s numeral := by
    rw [dif_pos (visible_numeral numeral)]
    exact .inr ⟨numeral, dif_pos (visible_numeral numeral)⟩

end Hde.Loading
