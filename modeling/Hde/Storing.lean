import Hde.Loading
import Hde.SaveFiles

/-!
The files of the server with the real `json`. A save file gives `reassemble_chunks` every
text that was saved, whatever it is, with the pairs of surrogates joined that it may hold
(`reassembles_joined`), so that nothing but the stripping of `|c` changes a text that came
from a JSON document or from the radio; and `_load_json` reads what `_save_json` was given
exactly if it is settled (`load_saved_iff`).
-/
namespace Hde.Storing
open Hde.Text Hde.Utf16 Hde.Numerals Hde.Dicts Hde.Records Hde.LastWrites Hde.Machines Hde.Saves Hde.JsonText Hde.JsonScan
  Hde.Rereading Hde.Files Hde.Ids Hde.Heard Hde.Loading Hde.SaveFiles

variable {floats : FloatReading} {i : Interpreter} {disk : Disk} {sender timestamp batch : Arg} {path : Str}
  {saves : List (Int × Str)} {calls : List SaveCall}

/-! ### A dict of texts in a file -/

theorem joined_intText (n : Int) : Joined (intText n) := by
  refine joined_of_scalars fun c member surrogate => ?_
  have visible := mem_intText member
  rw [Utf8.Surrogate] at surrogate
  rcases visible with rfl | digit
  · exact absurd surrogate (by decide)
  · omega

theorem dumps_texts (level : Nat) (entries : List (Str × Str)) :
    ∃ texts, dumpsMembers (some 2) level (entries.map fun entry => (entry.1, .str entry.2)) = .ok texts := by
  induction entries with
  | nil => exact ⟨[], rfl⟩
  | cons entry more ih =>
    obtain ⟨texts, ok⟩ := ih
    refine ⟨(quote entry.1 ++ lit ": " ++ quote entry.2) :: texts, ?_⟩
    rw [List.map_cons, dumpsMembers, ok]
    rfl

theorem dumps_object (d : Dict Str Str) : ∃ text, dumps (some 2) (object d) = .ok text := by
  obtain ⟨texts, ok⟩ := dumps_texts 1 d.entries
  refine ⟨enclose (some 2) 0 (lit "\x7b") (lit "\x7d") texts, ?_⟩
  rw [dumps, object, dumpsAt, ok]
  rfl

/-- Texts under ids, each with its pairs joined. -/
def joinedSaves (saves : List (Int × Str)) : List (Int × Str) := saves.map fun entry => (entry.1, joinPairs entry.2)

theorem rereadMembers_texts (entries : List (Int × Str)) :
    rereadMembers (decoder floats) (entries.map fun entry => (intText entry.1, .str entry.2)) =
      .ok (entries.map fun entry => (intText entry.1, .str (joinPairs entry.2))) := by
  induction entries with
  | nil => rfl
  | cons entry more ih =>
    rw [List.map_cons, rereadMembers, ih, string_settled (joined_intText entry.1)]
    show Except.ok ((_, Json.str (joinEscapes (scannedText entry.2))) :: _) = _
    rw [joinEscapes_scannedText]
    rfl

/-- What is printed of a dict of texts is read as the dict of the joined texts. -/
theorem loads_object (d : Dict Int Str) {text : Str} (ok : dumps (some 2) (object (keyed d)) = .ok text) :
    loads floats text = .ok (object (keyed (d.mapValues joinPairs))) := by
  have literals : Floats (Literal (decoder floats)) (object (keyed d)) := by
    rw [object, Floats, floatsMembers_iff]
    intro entry member
    obtain ⟨own, -, rfl⟩ := List.mem_map.mp member
    trivial
  have blank : White [] := List.forall_mem_nil _
  have scanned := scan_dumps (usual_decoder floats) ok literals ⟨blank, blank⟩
  rw [List.nil_append, List.append_nil] at scanned
  have members : object (keyed d) = .obj (d.entries.map fun entry => (intText entry.1, .str entry.2)) := by
    simp [object, keyed]
  have distinct : ((d.entries.map fun entry => (intText entry.1, Json.str (joinPairs entry.2))).map Prod.fst).Nodup := by
    rw [List.map_map]
    show (d.entries.map (intText ∘ Prod.fst)).Nodup
    rw [← List.map_map]
    exact d.distinct.map intText_injective
  rw [loads, scanned, members, reread, rereadMembers_texts]
  show Except.ok (Json.obj (collected _).entries) = _
  rw [entries_collected distinct]
  simp [object, keyed, Dict.mapValues]

/-! ### Runs of saves -/

/-- The save file holds a dict that is read as the joined texts of these saves. -/
inductive Kept (disk : Disk) (path : Str) : List (Int × Str) → Prop
  | nothing (absent : disk path = none) : Kept disk path []
  | file {saves : List (Int × Str)} {d : Dict Int Str} {text : Str} (prints : dumps (some 2) (object (keyed d)) = .ok text)
      (there : disk path = some (.file (bytes text))) (joins : d.mapValues joinPairs = written (joinedSaves saves)) :
      Kept disk path saves

theorem joinedSaves_append (saves more : List (Int × Str)) :
    joinedSaves (saves ++ more) = joinedSaves saves ++ joinedSaves more := List.map_append

theorem mapValues_joined (saves : List (Int × Str)) :
    (written (joinedSaves saves)).mapValues joinPairs = written (joinedSaves saves) := by
  rw [mapValues_written]
  simp [joinedSaves, Function.comp_def, joinPairs_idem]

variable (json : i.python.loads = loads floats)
include json

theorem Kept.read {text : Str} {d : Dict Int Str} (prints : dumps (some 2) (object (keyed d)) = .ok text)
    (there : disk path = some (.file (bytes text))) (joins : d.mapValues joinPairs = written (joinedSaves saves)) :
    readText disk path = .ok text ∧ i.python.loads text = .ok (object (keyed (written (joinedSaves saves)))) := by
  rw [json, ← joins]
  exact ⟨readText_printed (printed prints) there, loads_object d prints⟩

theorem Kept.load (kept : Kept disk path saves) : loadOrNew i disk path = .ok (object (keyed (written (joinedSaves saves)))) := by
  cases kept with
  | nothing absent =>
    rw [loadOrNew, absent]
    rfl
  | file prints there joins =>
    obtain ⟨read, loaded⟩ := Kept.read json prints there joins
    rw [loadOrNew, there]
    show readText disk path >>= i.python.loads = _
    rw [read]
    exact loaded

/-- One call: it returns if it lands, and then its text is in the file, with its pairs
    joined when it is read. -/
theorem Kept.save (named : savePath i sender timestamp batch = .ok path) (kept : Kept disk path saves) (call : SaveCall) :
    ((save i sender timestamp batch disk call).2 = .ok () ↔ call.Lands) ∧
      Kept (save i sender timestamp batch disk call).1 path (saves ++ landed [call]) := by
  obtain ⟨chunkId, message, opening⟩ := call
  have data : savedData i disk path chunkId message =
      if WithinLimit chunkId then .ok (object (keyed ((written (joinedSaves saves)).set chunkId message)))
      else .error (.raised (.valueError .digitLimit)) := by
    rw [savedData, kept.load json, ← setItem_keyed]
    show ((strInt chunkId).mapError _ >>= _) = _
    rw [strInt]
    by_cases fits : WithinLimit chunkId
    · rw [if_pos fits, if_pos fits]
      rfl
    · rw [if_neg fits, if_neg fits]
      rfl
  have unchanged : ¬ SaveCall.Lands ⟨chunkId, message, opening⟩ →
      saves ++ landed [⟨chunkId, message, opening⟩] = saves := by
    intro fails
    simp [landed, fails]
  simp only [SaveFiles.save, saveChunkData, named, data]
  by_cases fits : WithinLimit chunkId
  · cases opening with
    | some failure =>
      have fails : ¬ SaveCall.Lands ⟨chunkId, message, some failure⟩ := by simp [SaveCall.Lands]
      rw [unchanged fails]
      simp only [fits, if_true, fails, iff_false]
      exact ⟨by simp, kept⟩
    | none =>
      have lands : SaveCall.Lands ⟨chunkId, message, none⟩ := ⟨fits, rfl⟩
      have added : landed [⟨chunkId, message, none⟩] = [(chunkId, message)] := by simp [landed, lands]
      obtain ⟨text, prints⟩ := dumps_object (keyed ((written (joinedSaves saves)).set chunkId message))
      simp only [fits, if_true, prints, lands, true_and]
      refine .file prints (write_self _ _ _) ?_
      rw [added, joinedSaves_append, Dict.mapValues_set, mapValues_joined]
      exact (written_append _ _ _).symm
  · have fails : ¬ SaveCall.Lands ⟨chunkId, message, opening⟩ := fun lands => fits lands.1
    rw [unchanged fails]
    simp only [fits, if_false, fails, iff_false]
    exact ⟨by simp, kept⟩

theorem kept_after (named : savePath i sender timestamp batch = .ok path) (fresh : disk path = none) :
    Kept (after (save i sender timestamp batch) disk calls) path (landed calls) := by
  induction calls using List.reverseRecOn with
  | nil => exact .nothing fresh
  | append_singleton calls call ih =>
    rw [landed_append, after_append]
    exact (Kept.save json named ih call).2

theorem reassembleChunks_kept (named : savePath i sender timestamp batch = .ok path) (kept : Kept disk path saves)
    (writable : ∀ entry ∈ saves, WithinLimit entry.1) :
    reassembleChunks i disk sender timestamp batch = .ok (inIdOrder (joinedSaves saves)) := by
  cases kept with
  | nothing absent =>
    rw [reassembleChunks_absent named absent]
    simp [joinedSaves, inIdOrder, lastInOrder, sortedKeys]
  | file prints there joins =>
    obtain ⟨read, loaded⟩ := Kept.read json prints there joins
    have joined_writable : ∀ entry ∈ joinedSaves saves, WithinLimit entry.1 := by
      intro entry member
      obtain ⟨own, old, rfl⟩ := List.mem_map.mp member
      exact writable own old
    rw [reassembleChunks_object named read loaded, saves_inIdOrder named joined_writable]
    rfl

omit json in
theorem joinedSaves_eq_self (joined : ∀ entry ∈ saves, Joined entry.2) : joinedSaves saves = saves := by
  rw [joinedSaves]
  refine (List.map_congr_left fun entry member => ?_).trans (List.map_id saves)
  rw [joinPairs_eq_self_iff.mpr (joined entry member)]
  rfl

/-- With the real `json`, whatever is saved in whatever order, a call returns exactly if
    its id can be written and the file can be opened, and the file is put together from
    the last texts in the order of their ids, with the pairs of surrogates of each text
    joined. A text with `|c` in it comes back without its beginning up to the first `|`;
    where there are no pairs to join, that is all that happens to the texts. -/
theorem reassembles_joined (fresh : Fresh i disk sender timestamp batch) :
    (∀ call answer, (call, answer) ∈ answers (save i sender timestamp batch) disk calls →
      (answer = .ok () ↔ call.Lands ∧ ∃ path, savePath i sender timestamp batch = .ok path)) ∧
    reassembleChunks i (after (save i sender timestamp batch) disk calls) sender timestamp batch =
      ((savePath i sender timestamp batch).map fun _ => inIdOrder (joinedSaves (landed calls))).mapError
        (fun e => .failed (.raised e)) ∧
    ((∀ entry ∈ landed calls, Joined entry.2) → inIdOrder (joinedSaves (landed calls)) = inIdOrder (landed calls)) := by
  refine ⟨fun call answer given => ?_, ?_, fun joined => by rw [joinedSaves_eq_self joined]⟩
  · obtain ⟨before, rest, rfl, rfl⟩ := mem_answers given
    cases named : savePath i sender timestamp batch with
    | error e => simp [save, saveChunkData, named]
    | ok path => simpa using (Kept.save json named (kept_after json named (fresh path named)) call).1
  · cases named : savePath i sender timestamp batch with
    | error e =>
      rw [SaveFiles.reassembleChunks, named]
      rfl
    | ok path =>
      exact reassembleChunks_kept json named (kept_after json named (fresh path named))
        fun entry member => withinLimit_of_mem_landed member

def jsonInterpreter : Interpreter where
  python := ⟨loads verbatim, fun _ => .ok 0⟩
  showDict := fun _ => []
  dumped := fun _ => []

/-- A pair of surrogates behind a header, as one chunk. -/
def grin : SaveCall := ⟨1, lit "|c1|" ++ [CodePoint.ofNat 0xD83D, CodePoint.ofNat 0xDE00], none⟩

omit json in
theorem reassembles_joined_grin :
    SaveFiles.reassembleChunks jsonInterpreter
      (after (save jsonInterpreter (.str (lit "node1")) (.int 5) (.int 3)) (fun _ => none) [grin])
      (.str (lit "node1")) (.int 5) (.int 3) = .ok (lit "c1|" ++ [CodePoint.ofNat 0x1F600]) := by
  refine (reassembles_joined (show jsonInterpreter.python.loads = loads verbatim from rfl) (fun _ _ => rfl)).2.1.trans ?_
  have one : joinedSaves (landed [grin]) = [(1, lit "|c1|" ++ [CodePoint.ofNat 0x1F600])] := by decide +kernel
  have order : lastInOrder (joinedSaves (landed [grin])) = [lit "|c1|" ++ [CodePoint.ofNat 0x1F600]] := by
    rw [one, lastInOrder_sorted (List.pairwise_singleton _ _)]
    rfl
  rw [inIdOrder, order]
  decide +kernel

omit json in
/-- The real `json` undoes what it prints of the saves exactly if no text has a high
    surrogate before a low one. -/
theorem undoes_iff : Undoes (loads floats) saves ↔ ∀ entry ∈ saves, Joined entry.2 := by
  have settled (d : Dict Int Str) : Settled floats (object (keyed d)) ↔ ∀ entry ∈ d.entries, Joined entry.2 := by
    rw [object, Settled, settledMembers_iff]
    constructor
    · intro settled entry member
      have there : (intText entry.1, Json.str entry.2) ∈ (keyed d).entries.map fun entry => (entry.1, Json.str entry.2) :=
        List.mem_map.mpr ⟨(intText entry.1, entry.2), List.mem_map.mpr ⟨entry, member, rfl⟩, rfl⟩
      exact (settled.2 _ there).2
    · intro joined
      refine ⟨?_, ?_⟩
      · rw [List.map_map]
        exact (keyed d).distinct
      · intro member there
        obtain ⟨text, own, rfl⟩ := List.mem_map.mp there
        obtain ⟨entry, old, rfl⟩ := List.mem_map.mp own
        exact ⟨joined_intText _, joined entry old⟩
  constructor
  · intro undoes entry member
    have one := undoes ⟨[entry], List.nodup_singleton _⟩ (by simpa using member)
    exact (settled _).mp (roundTrips_iff.mp one) entry (List.mem_singleton_self _)
  · exact fun joined d inside => roundTrips_iff.mpr ((settled d).mpr fun entry member => joined entry (inside entry member))

/-! ### `_save_json` and `_load_json` -/

/-- `Parser._save_json`; `opening` is what `open(path, "w")` raises, if it raises. -/
def saveJson (i : Interpreter) (opening : Option Failure) (disk : Disk) (path : Str) (data : Json) :
    Disk × Except Failure Unit :=
  match opening with
  | some failure => (disk, .error failure)
  | none =>
    match dumps (some 4) data with
    | .error e => (write disk path (i.dumped data), .error (.raised (.valueError e)))
    | .ok text => (write disk path (bytes text), .ok ())

theorem loadJson_printed {data : Json} {text : Str} (prints : dumps (some 4) data = .ok text) :
    loadJson i.python (write disk path (bytes text)) path =
      match loads floats text with
      | .error .jsonDecodeError => .ok (.obj [])
      | loaded => loaded := by
  rewrite [loadJson, readText_printed (printed prints) (write_self _ _ _), json]
  rfl

/-- What `_save_json` has saved is loaded exactly if it is settled. -/
theorem load_saved_iff {data : Json} {after : Disk} (saved : saveJson i none disk path data = (after, .ok ())) :
    loadJson i.python after path = .ok data ↔ Settled floats data := by
  obtain ⟨text, prints, rfl⟩ : ∃ text, dumps (some 4) data = .ok text ∧ after = write disk path (bytes text) := by
    simp only [saveJson] at saved
    split at saved
    · cases saved
    · next text prints =>
      cases saved
      exact ⟨text, prints, rfl⟩
  rw [loadJson_printed json prints]
  constructor
  · intro same
    split at same
    · cases same
      exact ⟨List.nodup_nil, trivial⟩
    · next loaded => exact roundTrips_iff.mp ⟨text, prints, same⟩
  · intro settled
    obtain ⟨document, prints_too, loaded⟩ : RoundTrips (loads floats) (some 4) data := roundTrips_settled settled
    obtain rfl : text = document := Except.ok.inj (prints.symm.trans prints_too)
    rw [loaded]

end Hde.Storing
