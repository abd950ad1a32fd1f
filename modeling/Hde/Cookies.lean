import Hde.Bodies

/-!
The cookie that keeps the user's name. `encodeURIComponent` refuses a text with a lone
surrogate and writes nothing that a cookie may not hold; `decodeURIComponent` undoes it
(`decode_encode`). In the text of the cookies `getCookie` finds the value of the one
that is named, whatever the others are (`cookieMatch_text`), so that a name that was
once chosen is the user's name at every later visit at which the browser still has
the cookie. It is one for the session, and one that is too long is never kept.
-/
namespace Hde.Cookies
open Hde.Text Hde.Utf8 Hde.Utf16 Hde.Dicts Hde.JsonScan Hde.Bodies

def semicolon : UInt16 := 0x3B
def equals : UInt16 := 0x3D
def percentSign : UInt16 := 0x25

/-! ### `encodeURIComponent` and `decodeURIComponent` -/

/-- A letter, a digit or one of `-_.!~*'()`. -/
def Unreserved (c : CodePoint) : Prop :=
  (48 ≤ c.val ∧ c.val ≤ 57) ∨ (65 ≤ c.val ∧ c.val ≤ 90) ∨ (97 ≤ c.val ∧ c.val ≤ 122) ∨
    c.val ∈ [0x2D, 0x5F, 0x2E, 0x21, 0x7E, 0x2A, 0x27, 0x28, 0x29]

instance : DecidablePred Unreserved := fun c => by unfold Unreserved; infer_instance

def hexUnit (d : Nat) : UInt16 := .ofNat (if d < 10 then 48 + d else 55 + d)

/-- `%XX`. -/
def percent (b : UInt8) : JsString := [percentSign, hexUnit (b.toNat / 16), hexUnit (b.toNat % 16)]

def escapeChar (c : CodePoint) : JsString :=
  if Unreserved c then [.ofNat c.val] else (Utf8.encodeChar c).flatMap percent

def encodeURIComponent (s : JsString) : Except JsError JsString :=
  if ∃ c ∈ codePoints s, Surrogate c then .error .uriError else .ok ((codePoints s).flatMap escapeChar)

/-- The bytes of the escapes that a text begins with. -/
def percentBytes : JsString → List UInt8
  | mark :: high :: low :: rest =>
    if mark = percentSign then
      match hexValue (ofUnit high), hexValue (ofUnit low) with
      | some a, some b => .ofNat (a * 16 + b) :: percentBytes rest
      | _, _ => []
    else []
  | _ => []

/-- Decoding, with `skip` units of the last escapes still to pass over. -/
def decodeFrom : Nat → JsString → Except JsError JsString
  | _, [] => .ok []
  | skip + 1, _ :: rest => decodeFrom skip rest
  | 0, u :: rest =>
    if u = percentSign then
      match Utf8.charAt (percentBytes (u :: rest)) with
      | none => .error .uriError
      | some c => (decodeFrom (3 * (Utf8.encodeChar c).length - 1) rest).map (units [c] ++ ·)
    else (decodeFrom 0 rest).map (u :: ·)

def decodeURIComponent (s : JsString) : Except JsError JsString := decodeFrom 0 s

theorem hexValue_hexUnit {d : Nat} (small : d < 16) : hexValue (ofUnit (hexUnit d)) = some d := by
  have digits : ∀ d < 16, hexValue (ofUnit (hexUnit d)) = some d := by decide
  exact digits d small

theorem percentBytes_percent (b : UInt8) (rest : JsString) : percentBytes (percent b ++ rest) = b :: percentBytes rest := by
  have bound := b.toNat_lt
  have value : b.toNat / 16 * 16 + b.toNat % 16 = b.toNat := by omega
  simp only [percent, List.cons_append, List.nil_append, percentBytes, if_true,
    hexValue_hexUnit (show b.toNat / 16 < 16 by omega), hexValue_hexUnit (show b.toNat % 16 < 16 by omega), value,
    UInt8.ofNat_toNat]

theorem percentBytes_escapes (bytes : List UInt8) (rest : JsString) :
    percentBytes (bytes.flatMap percent ++ rest) = bytes ++ percentBytes rest := by
  induction bytes with
  | nil => rfl
  | cons b more ih => rw [List.flatMap_cons, List.append_assoc, percentBytes_percent, ih, List.cons_append]

theorem length_escapes (bytes : List UInt8) : (bytes.flatMap percent).length = 3 * bytes.length := by
  induction bytes with
  | nil => rfl
  | cons b more ih =>
    rw [List.flatMap_cons, List.length_append, ih, List.length_cons]
    simp [percent]
    omega

private theorem decodeFrom_skip (first rest : JsString) :
    decodeFrom first.length (first ++ rest) = decodeURIComponent rest := by
  induction first with
  | nil => rfl
  | cons u more ih => exact ih

theorem units_append (s t : Str) : units (s ++ t) = units s ++ units t := by
  rw [units, List.flatMap_append, List.map_append]
  rfl

theorem units_ascii {c : CodePoint} (small : c.val < 0x80) : units [c] = [.ofNat c.val] := by
  rw [units, List.flatMap_singleton, split_small (by omega), List.map_singleton]

theorem decode_escapeChar {c : CodePoint} (scalar : ¬ Surrogate c) (rest : JsString) :
    decodeURIComponent (escapeChar c ++ rest) = (decodeURIComponent rest).map (units [c] ++ ·) := by
  unfold escapeChar
  by_cases plain : Unreserved c
  · rw [if_pos plain]
    have small : c.val < 0x80 ∧ c.val ≠ 0x25 := by
      unfold Unreserved at plain
      simp only [List.mem_cons, List.not_mem_nil, or_false] at plain
      omega
    have other : UInt16.ofNat c.val ≠ percentSign := by
      intro same
      have value := congrArg UInt16.toNat same
      rw [UInt16.toNat_ofNat', Nat.mod_eq_of_lt (by omega)] at value
      exact small.2 value
    rw [decodeURIComponent, List.singleton_append, decodeFrom, if_neg other, units_ascii small.1]
    rfl
  · rw [if_neg plain]
    obtain ⟨b, more, bytes⟩ := List.exists_cons_of_ne_nil
      (List.length_pos_iff.mp (Nat.lt_of_lt_of_le Nat.zero_lt_one (length_encodeChar c).1))
    have read : Utf8.charAt (percentBytes ((Utf8.encodeChar c).flatMap percent ++ rest)) = some c := by
      rw [percentBytes_escapes]
      exact charAt_encodeChar scalar _
    have size := length_escapes (Utf8.encodeChar c)
    -- the first unit is the `%` of the first byte
    obtain ⟨tail, shape⟩ : ∃ tail, (Utf8.encodeChar c).flatMap percent = percentSign :: tail :=
      ⟨[hexUnit (b.toNat / 16), hexUnit (b.toNat % 16)] ++ more.flatMap percent, by rw [bytes]; rfl⟩
    rw [shape, List.cons_append] at read ⊢
    have passed : 3 * (Utf8.encodeChar c).length - 1 = tail.length := by
      rw [← size, shape, List.length_cons, Nat.add_sub_cancel]
    rw [decodeURIComponent, decodeFrom, if_pos rfl, read]
    dsimp only
    rw [passed, decodeFrom_skip]

/-- `decodeURIComponent` undoes `encodeURIComponent`. -/
theorem decode_encode {s encoded : JsString} (ok : encodeURIComponent s = .ok encoded) :
    decodeURIComponent encoded = .ok s := by
  unfold encodeURIComponent at ok
  split at ok
  · cases ok
  · next scalars =>
    have each : ∀ c ∈ codePoints s, ¬ Surrogate c := fun c member surrogate => scalars ⟨c, member, surrogate⟩
    have decoded (cs : Str) (each : ∀ c ∈ cs, ¬ Surrogate c) :
        decodeURIComponent (cs.flatMap escapeChar) = .ok (units cs) := by
      induction cs with
      | nil => rfl
      | cons c more ih =>
        rw [List.flatMap_cons, decode_escapeChar (each c (by simp)), ih fun d member => each d (by simp [member]),
          Except.map, ← units_append]
        rfl
    cases ok
    rw [decoded _ each, units_codePoints]

theorem plain_encode {s encoded : JsString} (ok : encodeURIComponent s = .ok encoded) : semicolon ∉ encoded := by
  have digit : ∀ d < 16, hexUnit d ≠ semicolon := by decide
  have escape (b : UInt8) : semicolon ∉ percent b := by
    have bound := b.toNat_lt
    simp only [percent, List.mem_cons, List.not_mem_nil, or_false, not_or]
    exact ⟨by decide, (digit _ (by omega)).symm, (digit _ (by omega)).symm⟩
  unfold encodeURIComponent at ok
  split at ok
  · cases ok
  · cases ok
    intro member
    obtain ⟨c, -, part⟩ := List.mem_flatMap.mp member
    unfold escapeChar at part
    split at part
    · next plain =>
      have value := congrArg UInt16.toNat (List.mem_singleton.mp part)
      unfold Unreserved at plain
      simp only [List.mem_cons, List.not_mem_nil, or_false] at plain
      rw [UInt16.toNat_ofNat', Nat.mod_eq_of_lt (by omega), (by decide : semicolon.toNat = 0x3B)] at value
      omega
    · obtain ⟨b, -, unit⟩ := List.mem_flatMap.mp part
      exact escape b unit

/-! ### `document.cookie` -/

/-- A name that is not empty and ends at the first `=`, and a value up to the next `;`. -/
structure Cookie (name value : JsString) : Prop where
  named : name ≠ []
  name_plain : semicolon ∉ name ∧ equals ∉ name
  plain : semicolon ∉ value

/-- The cookies of the page, no name twice. -/
structure Jar where
  dict : Dict JsString JsString
  cookies : ∀ entry ∈ dict.entries, Cookie entry.1 entry.2

/-- `name=value`. -/
def pairText (entry : JsString × JsString) : JsString := entry.1 ++ equals :: entry.2

def gap : JsString := [semicolon, 0x20]

/-- `document.cookie`. -/
def cookieText : List (JsString × JsString) → JsString
  | [] => []
  | [entry] => pairText entry
  | entry :: next :: more => pairText entry ++ gap ++ cookieText (next :: more)

def Jar.text (jar : Jar) : JsString := cookieText jar.dict.entries

/-- What the group matches if the text begins with the pattern: all up to a `;`. -/
def groupAt (pattern s : JsString) : Option JsString :=
  if pattern <+: s then some ((s.drop pattern.length).takeWhile (· ≠ semicolon)) else none

/-- The first place where the pattern comes after `; `. -/
def searchGap (pattern : JsString) : JsString → Option JsString
  | [] => none
  | u :: rest => (groupAt (gap ++ pattern) (u :: rest)).or (searchGap pattern rest)

/-- The group of `/(?:^|; )name=([^;]*)/`. -/
def cookieMatch (name s : JsString) : Option JsString :=
  (groupAt (name ++ [equals]) s).or (searchGap (name ++ [equals]) s)

/-- `getCookie`: a name without a match gives `null`. -/
def getCookie (name cookie : JsString) : Except JsError (Option JsString) :=
  match cookieMatch name cookie with
  | none => .ok none
  | some value => (decodeURIComponent value).map some

/-- At a cookie the pattern matches if the name is the cookie's. -/
theorem groupAt_pair {name : JsString} (clean : equals ∉ name) {entry : JsString × JsString}
    (cookie : Cookie entry.1 entry.2) (after : JsString) (ended : after.head? = none ∨ after.head? = some semicolon) :
    groupAt (name ++ [equals]) (pairText entry ++ after) = if entry.1 = name then some entry.2 else none := by
  have shape : pairText entry ++ after = entry.1 ++ equals :: (entry.2 ++ after) := by
    rw [pairText, List.append_assoc]
    rfl
  rw [groupAt, shape]
  by_cases same : entry.1 = name
  · have start : name ++ [equals] <+: entry.1 ++ equals :: (entry.2 ++ after) := by
      rw [same]
      exact ⟨entry.2 ++ after, by simp⟩
    have remains : (entry.1 ++ equals :: (entry.2 ++ after)).drop (name ++ [equals]).length = entry.2 ++ after := by
      rw [same, ← List.singleton_append (l := entry.2 ++ after), ← List.append_assoc, List.drop_left]
    have whole : (entry.2 ++ after).takeWhile (· ≠ semicolon) = entry.2 := by
      rw [List.takeWhile_append_of_pos]
      · rcases ended with none_left | mark
        · rw [List.head?_eq_none_iff.mp none_left, List.takeWhile_nil, List.append_nil]
        · cases after with
          | nil => cases mark
          | cons u rest =>
            obtain rfl : u = semicolon := Option.some.inj mark
            simp
      · intro u member
        have other : u ≠ semicolon := fun same => cookie.plain (same ▸ member)
        simpa using other
    rw [if_pos start, if_pos same, remains, whole]
  · have other : ¬ name ++ [equals] <+: entry.1 ++ equals :: (entry.2 ++ after) := by
      rintro ⟨rest, split⟩
      rw [List.append_assoc, List.singleton_append] at split
      -- both texts have their first `=` there
      have left := partition_append clean rest
      have right := partition_append cookie.name_plain.2 (entry.2 ++ after)
      rw [split, right] at left
      exact same (Prod.mk.inj left).1
    rw [if_neg other, if_neg same]

/-- The search passes over what has no `;`. -/
theorem searchGap_append {plain : JsString} (clean : semicolon ∉ plain) (pattern rest : JsString) :
    searchGap pattern (plain ++ rest) = searchGap pattern rest := by
  induction plain with
  | nil => rfl
  | cons u more ih =>
    obtain ⟨other, later⟩ := not_or.mp (mt List.mem_cons.mpr clean)
    have missed : groupAt (gap ++ pattern) (u :: (more ++ rest)) = none := by
      refine if_neg fun start => ?_
      obtain ⟨same, -⟩ := List.cons_prefix_cons.mp start
      exact other same
    rw [List.cons_append, searchGap, missed, Option.none_or, ih later]

theorem searchGap_gap (pattern rest : JsString) :
    searchGap pattern (gap ++ rest) = (groupAt pattern rest).or (searchGap pattern rest) := by
  have here : groupAt (gap ++ pattern) (gap ++ rest) = groupAt pattern rest := by
    have lengths : (gap ++ rest).drop (gap ++ pattern).length = rest.drop pattern.length := by
      rw [List.length_append, List.drop_length_add_append]
    simp only [groupAt, List.prefix_append_right_inj, lengths]
  have space : searchGap pattern ([0x20] ++ rest) = searchGap pattern rest := searchGap_append (by decide) pattern rest
  show (groupAt (gap ++ pattern) (gap ++ rest)).or (searchGap pattern ([0x20] ++ rest)) = _
  rw [here, space]

private theorem get?_cons {κ ν : Type} [DecidableEq κ] (entry : κ × ν) (more : List (κ × ν))
    (distinct : ((entry :: more).map Prod.fst).Nodup) (k : κ) :
    (⟨entry :: more, distinct⟩ : Dict κ ν).get? k =
      if entry.1 = k then some entry.2 else (⟨more, (List.nodup_cons.mp distinct).2⟩ : Dict κ ν).get? k := by
  rw [Dict.get?, List.lookup_cons]
  by_cases same : entry.1 = k
  · simp [same]
  · rw [if_neg same, beq_false_of_ne (Ne.symm same)]
    rfl

/-- In the text of the cookies `getCookie` finds the value of its cookie. -/
theorem cookieMatch_text {name : JsString} (clean : equals ∉ name) (jar : Jar) :
    cookieMatch name jar.text = jar.dict.get? name := by
  obtain ⟨⟨entries, distinct⟩, cookies⟩ := jar
  show cookieMatch name (cookieText entries) = _
  induction entries with
  | nil =>
    have missed : groupAt (name ++ [equals]) [] = none := if_neg (by simp)
    rw [cookieText, cookieMatch, missed]
    rfl
  | cons entry more ih =>
    have cookie := cookies entry (by simp)
    have unmarked : semicolon ∉ pairText entry := by
      simp only [pairText, List.mem_append, List.mem_cons, not_or]
      exact ⟨cookie.name_plain.1, by decide, cookie.plain⟩
    have later := ih (List.nodup_cons.mp distinct).2 fun other member => cookies other (List.mem_cons_of_mem _ member)
    rw [get?_cons, ← later]
    cases more with
    | nil =>
      have here := groupAt_pair clean cookie (List.nil : JsString) (.inl rfl)
      have ended : searchGap (name ++ [equals]) (pairText entry ++ []) = none := searchGap_append unmarked _ []
      have missed : groupAt (name ++ [equals]) [] = none := if_neg (by simp)
      rw [List.append_nil] at here ended
      show (groupAt (name ++ [equals]) (pairText entry)).or (searchGap (name ++ [equals]) (pairText entry)) =
        if entry.1 = name then some entry.2 else (groupAt (name ++ [equals]) []).or none
      rw [here, ended, missed, Option.or_none, Option.or_none]
    | cons next rest =>
      have here := groupAt_pair clean cookie (gap ++ cookieText (next :: rest)) (.inr rfl)
      rw [cookieText, List.append_assoc, cookieMatch, here, searchGap_append unmarked, searchGap_gap]
      by_cases same : entry.1 = name
      · rw [if_pos same, if_pos same, Option.some_or]
      · rw [if_neg same, if_neg same, Option.none_or]
        rfl

/-! ### The user's name -/

theorem mem_set {d : Dict JsString JsString} {name value : JsString} {entry : JsString × JsString}
    (member : entry ∈ (d.set name value).entries) : entry = (name, value) ∨ entry ∈ d.entries := by
  have found := Dict.get?_eq_some_iff.mpr member
  rw [Dict.get?_set] at found
  split at found
  · next same => exact .inl (Prod.ext same (Option.some.inj found).symm)
  · exact .inr (Dict.get?_eq_some_iff.mp found)

/-- The bytes that a name and a value may have together. -/
def cookieBytes : Nat := 4096

/-- `document.cookie = "name=value"`, both ASCII: the browser ignores a cookie that is too long. -/
def Jar.set (jar : Jar) (name value : JsString) (cookie : Cookie name value) : Jar :=
  if name.length + value.length ≤ cookieBytes then
    { dict := jar.dict.set name value
      cookies := by
        intro entry member
        rcases mem_set member with rfl | old
        · exact cookie
        · exact jar.cookies entry old }
  else jar

theorem set_get? (jar : Jar) {name value : JsString} (cookie : Cookie name value)
    (fits : name.length + value.length ≤ cookieBytes) : (jar.set name value cookie).dict.get? name = some value := by
  rw [Jar.set, if_pos fits]
  exact Dict.get?_set_self _ _ _

theorem set_get?_of_ne (jar : Jar) {name other : JsString} (value : JsString) (cookie : Cookie name value)
    (different : other ≠ name) : (jar.set name value cookie).dict.get? other = jar.dict.get? other := by
  rw [Jar.set]
  split
  · exact Dict.get?_set_of_ne _ _ different
  · rfl

def username : JsString := js "username"

theorem username_plain : username ≠ [] ∧ semicolon ∉ username ∧ equals ∉ username := by decide

/-- What `usernamePrompt` returns, the value of the field and the cookies then. -/
structure Prompted where
  uname : JsString
  field : JsString
  jar : Jar

/-- `usernamePrompt`; `answer` is what the user enters, if anything. -/
def usernamePrompt (jar : Jar) (answer : Option JsString) (defaultUsername : JsString) : Except JsError Prompted :=
  match getCookie username jar.text with
  | .error e => .error e
  | .ok found =>
    if found.getD [] ≠ [] then .ok ⟨found.getD [], found.getD [], jar⟩
    else
      let uname := if answer.getD [] = [] then defaultUsername else answer.getD []
      match encoded : encodeURIComponent uname with
      | .error e => .error e
      -- with no name at all the field gets the text that is assigned to `document.cookie`
      | .ok value => .ok ⟨uname, if uname = [] then js "username=;" else uname,
          jar.set username value ⟨username_plain.1, username_plain.2, plain_encode encoded⟩⟩

/-- The cookie with that name is not too long. -/
def Fits (uname : JsString) : Prop :=
  ∀ value, encodeURIComponent uname = .ok value → username.length + value.length ≤ cookieBytes

theorem getCookie_of_get? {jar : Jar} {name value : JsString} (there : jar.dict.get? username = some value)
    (decoded : decodeURIComponent value = .ok name) : getCookie username jar.text = .ok (some name) := by
  rw [getCookie, cookieMatch_text username_plain.2.2, there]
  dsimp only
  rw [decoded]
  rfl

/-- What a call leaves: the cookie holds the name, if it fits, and the others are as they were. -/
theorem usernamePrompt_spec {jar : Jar} {answer : Option JsString} {defaultUsername : JsString} {prompted : Prompted}
    (ok : usernamePrompt jar answer defaultUsername = .ok prompted) :
    (Fits prompted.uname →
        ∃ value, prompted.jar.dict.get? username = some value ∧ decodeURIComponent value = .ok prompted.uname) ∧
      (∀ other, other ≠ username → prompted.jar.dict.get? other = jar.dict.get? other) ∧
      (prompted.uname ≠ [] → prompted.field = prompted.uname) := by
  unfold usernamePrompt at ok
  split at ok
  · cases ok
  · next found read =>
    split at ok
    · next kept =>
      cases ok
      refine ⟨fun _ => ?_, fun _ _ => rfl, fun _ => rfl⟩
      rw [getCookie, cookieMatch_text username_plain.2.2] at read
      cases there : jar.dict.get? username with
      | none =>
        rw [there] at read
        cases read
        exact absurd rfl kept
      | some value =>
        rw [there] at read
        obtain ⟨name, decoded, same⟩ := JsonText.ok_of_map read
        cases same
        exact ⟨value, rfl, decoded⟩
    · dsimp only at ok
      split at ok
      · cases ok
      · next value encoded =>
        cases ok
        have cookie : Cookie username value := ⟨username_plain.1, username_plain.2, plain_encode encoded⟩
        refine ⟨fun fits => ?_, fun other different => set_get?_of_ne _ _ cookie different,
          fun some_name => if_neg some_name⟩
        exact ⟨value, set_get? _ cookie (fits value encoded), decode_encode encoded⟩

/-- Once chosen, a name that fits is the user's at every later visit at which its cookie
    is there, whatever is answered then and whatever other cookies have come and gone. -/
theorem username_kept {jar later : Jar} {answer : Option JsString} {defaultUsername : JsString} {prompted : Prompted}
    (ok : usernamePrompt jar answer defaultUsername = .ok prompted) (named : prompted.uname ≠ [])
    (fits : Fits prompted.uname) (kept : later.dict.get? username = prompted.jar.dict.get? username)
    (answer' : Option JsString) (default' : JsString) :
    getCookie username later.text = .ok (some prompted.uname) ∧
      usernamePrompt later answer' default' = .ok ⟨prompted.uname, prompted.uname, later⟩ := by
  obtain ⟨value, there, decoded⟩ := (usernamePrompt_spec ok).1 fits
  have read := getCookie_of_get? (kept.trans there) decoded
  refine ⟨read, ?_⟩
  rw [usernamePrompt, read]
  exact if_pos named

def noCookies : Jar := ⟨Dict.empty, by simp [Dict.empty]⟩

theorem username_kept_accented : ∃ prompted, usernamePrompt noCookies (some (js "é;=")) (js "Guest") = .ok prompted ∧
    prompted.jar.text = js "username=%C3%A9%3B%3D" ∧
    usernamePrompt prompted.jar none (js "Guest") = .ok ⟨js "é;=", js "é;=", prompted.jar⟩ := by
  obtain ⟨prompted, ok, name, text⟩ : ∃ prompted, usernamePrompt noCookies (some (js "é;=")) (js "Guest") = .ok prompted ∧
      prompted.uname = js "é;=" ∧ prompted.jar.text = js "username=%C3%A9%3B%3D" := ⟨_, rfl, by decide, by decide⟩
  have named : prompted.uname ≠ [] := by
    rw [name]
    decide
  have fits : Fits prompted.uname := by
    intro value encoded
    rw [name, show encodeURIComponent (js "é;=") = .ok (js "%C3%A9%3B%3D") from rfl] at encoded
    cases encoded
    decide
  have kept := (username_kept ok named fits rfl none (js "Guest")).2
  rw [name] at kept
  exact ⟨prompted, ok, text, kept⟩

end Hde.Cookies
