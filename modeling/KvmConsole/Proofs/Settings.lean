import KvmConsole.Settings
import KvmConsole.Proofs.Toml.Integers
import Mathlib.Tactic.SplitIfs

/-!
# Settings of a document

`WellTyped` tables are those that give settings, and `Reads` says which: every field has the value
of its key, or its default. `Refused` says what is wrong with a document that gives none.

Key results:
* `exists_ofTable_iff`, `reads_of_ofTable`: whether a table gives settings, and which.
* `ofText_cases`, `Refused.ofText`: a document is accepted, or refused for what is wrong with it.
-/

namespace KvmConsole.Settings

open Toml (Node Entries)

/-! ## Fields of a table -/

/-- The kinds of values that fields have. -/
inductive Kind where
  | text
  /-- A number that is not negative. -/
  | natural
  | flag
  deriving DecidableEq, Repr

/-- Whether a value is of a kind. -/
def Kind.Admits : Kind → Node → Prop
  | text, .string _ | flag, .boolean _ => True
  | natural, .integer n => 0 ≤ n
  | _, _ => False

/-- The known keys of a document. -/
def fieldKinds : List (String × Kind) :=
  [("daemon_url", .text), ("user", .text), ("passwd", .text), ("move_interval_ms", .natural),
    ("http_timeout_secs", .natural), ("upload_chunk_size", .natural), ("touch_capture", .flag),
    ("log_level", .text)]

/-- A key has a value of a kind, or none. -/
def Agrees (table : Entries) (key : String) (kind : Kind) : Prop :=
  ∀ node, table.lookup key = some node → kind.Admits node

/-- No known key has a value of the wrong kind. -/
def WellTyped (table : Entries) : Prop :=
  ∀ entry ∈ fieldKinds, Agrees table entry.1 entry.2

def textAt (table : Entries) (key : String) : Option String :=
  (table.lookup key).bind text?

def flagAt (table : Entries) (key : String) : Option Bool :=
  (table.lookup key).bind flag?

def integerAt (table : Entries) (key : String) : Option Int :=
  (table.lookup key).bind fun
    | .integer n => some n
    | _ => none

/-- The size of the pieces that a table asks for. -/
def chunkSizeAt (table : Entries) : Int :=
  (integerAt table "upload_chunk_size").getD 65536

/-- The pace of moves that a table asks for. -/
def moveIntervalAt (table : Entries) : Int :=
  (integerAt table "move_interval_ms").getD 100

/-- The settings that a table gives: the values of its known keys, and defaults. -/
structure Reads (table : Entries) (s : Settings) : Prop where
  daemonUrl : s.daemonUrl = (textAt table "daemon_url").getD "http://127.0.0.1"
  user : s.user = textAt table "user"
  passwd : s.passwd = textAt table "passwd"
  moveIntervalMs : (s.moveIntervalMs.toNat : Int) = moveIntervalAt table
  httpTimeoutSecs : (s.httpTimeoutSecs.toNat : Int) = (integerAt table "http_timeout_secs").getD 30
  uploadChunkSize : (s.uploadChunkSize.toNat : Int) = chunkSizeAt table
  touchCapture : s.touchCapture = (flagAt table "touch_capture").getD false
  logLevel : s.logLevel = (textAt table "log_level").getD "info"

variable {α : Type} {table : Entries} {read : Node → Option α} {key : String} {kind : Kind}

/-- A string is read from string values only. -/
private theorem isSome_text?_iff {node : Node} : (text? node).isSome ↔ Kind.text.Admits node := by
  cases node <;> simp [text?, Kind.Admits]

/-- A field that may be missing is read from string values only, too. -/
private theorem isSome_map_text?_iff {node : Node} :
    ((text? node).map some).isSome ↔ Kind.text.Admits node := by
  rw [Option.isSome_map, isSome_text?_iff]

/-- A truth value is read from truth values only. -/
private theorem isSome_flag?_iff {node : Node} : (flag? node).isSome ↔ Kind.flag.Admits node := by
  cases node <;> simp [flag?, Kind.Admits]

/-- An unsigned number is read from integers that are not negative. -/
private theorem isSome_natural?_iff {node : Node} :
    (natural? node).isSome ↔ Kind.natural.Admits node := by
  cases node <;> simp [natural?, Kind.Admits]

/-- A field is read unless there is a value of another kind at its key. -/
private theorem exists_field_iff (hread : ∀ {node}, (read node).isSome ↔ kind.Admits node)
    (default : α) :
    (∃ value, field table read key default = some value) ↔ Agrees table key kind := by
  unfold field Agrees
  cases table.lookup key <;> simp [← hread, Option.isSome_iff_exists]

/-- A field has the value at its key, and its default if the key is missing. -/
private theorem eq_of_field {default value : α} (h : field table read key default = some value) :
    value = ((table.lookup key).bind read).getD default := by
  unfold field at h
  cases hlookup : table.lookup key with
  | none =>
    rw [hlookup] at h
    exact (Option.some.inj h).symm
  | some node =>
    rw [hlookup] at h
    have hread : read node = some value := h
    rw [Option.bind_some, hread, Option.getD_some]

/-- A field that may be missing has the string at its key, and none if the key is missing. -/
private theorem eq_of_field_map_some {value : Option String}
    (h : field table (fun node => (text? node).map some) key none = some value) :
    value = textAt table key := by
  rw [eq_of_field h, textAt]
  cases hlookup : table.lookup key with
  | none => rfl
  | some node => cases htext : text? node <;> simp [htext]

/-- A number that has 64 bits is taken over as it is. -/
private theorem integer_of_natural? {node : Node} (hnode : node.Sized) {n : UInt64}
    (h : natural? node = some n) : node = .integer n.toNat := by
  cases hnode with
  | integer hlow hhigh =>
    -- The range of the integers of a document lets the conversion to a word keep the value.
    simp only [natural?] at h
    split_ifs at h with hvalue
    cases h
    rw [UInt64.toNat_ofNat']
    congr 1
    omega
  | _ => cases h

/-- A field with a number has the number of its key, or its default. -/
private theorem toNat_field_natural (htable : table.Sized) {default value : UInt64}
    (h : field table natural? key default = some value) :
    (value.toNat : Int) = (integerAt table key).getD default.toNat := by
  unfold field at h
  unfold integerAt
  cases hlookup : table.lookup key with
  | none =>
    rw [hlookup] at h
    cases h
    rfl
  | some node =>
    rw [hlookup] at h
    rw [integer_of_natural? (htable.lookup hlookup) h]
    rfl

/-- Settings are read from a table field by field, and each field may refuse. -/
private theorem ofTable_eq_some_iff {s : Settings} :
    ofTable table = some s ↔
      field table text? "daemon_url" "http://127.0.0.1" = some s.daemonUrl ∧
      field table (fun node => (text? node).map some) "user" none = some s.user ∧
      field table (fun node => (text? node).map some) "passwd" none = some s.passwd ∧
      field table natural? "move_interval_ms" 100 = some s.moveIntervalMs ∧
      field table natural? "http_timeout_secs" 30 = some s.httpTimeoutSecs ∧
      field table natural? "upload_chunk_size" 65536 = some s.uploadChunkSize ∧
      field table flag? "touch_capture" false = some s.touchCapture ∧
      field table text? "log_level" "info" = some s.logLevel := by
  constructor
  · intro h
    -- The fields are read one after the other, each behind a bind.
    obtain ⟨daemonUrl, hdaemonUrl, h⟩ := Option.bind_eq_some_iff.mp h
    obtain ⟨user, huser, h⟩ := Option.bind_eq_some_iff.mp h
    obtain ⟨passwd, hpasswd, h⟩ := Option.bind_eq_some_iff.mp h
    obtain ⟨moveIntervalMs, hmove, h⟩ := Option.bind_eq_some_iff.mp h
    obtain ⟨httpTimeoutSecs, htimeout, h⟩ := Option.bind_eq_some_iff.mp h
    obtain ⟨uploadChunkSize, hchunk, h⟩ := Option.bind_eq_some_iff.mp h
    obtain ⟨touchCapture, htouch, h⟩ := Option.bind_eq_some_iff.mp h
    obtain ⟨logLevel, hlog, ⟨⟩⟩ := Option.bind_eq_some_iff.mp h
    exact ⟨hdaemonUrl, huser, hpasswd, hmove, htimeout, hchunk, htouch, hlog⟩
  · rintro ⟨hdaemonUrl, huser, hpasswd, hmove, htimeout, hchunk, htouch, hlog⟩
    simp only [ofTable, hdaemonUrl, huser, hpasswd, hmove, htimeout, hchunk, htouch, hlog]
    rfl

/-- A table is well typed if each of the eight keys agrees with its kind. -/
private theorem wellTyped_iff :
    WellTyped table ↔ Agrees table "daemon_url" .text ∧ Agrees table "user" .text ∧
      Agrees table "passwd" .text ∧ Agrees table "move_interval_ms" .natural ∧
      Agrees table "http_timeout_secs" .natural ∧ Agrees table "upload_chunk_size" .natural ∧
      Agrees table "touch_capture" .flag ∧ Agrees table "log_level" .text := by
  simp [WellTyped, fieldKinds]

/-- A table gives settings if its known keys have values of the right kinds. -/
theorem exists_ofTable_iff : (∃ s, ofTable table = some s) ↔ WellTyped table := by
  simp only [wellTyped_iff]
  constructor
  · -- Each field that was read agrees with its kind.
    rintro ⟨s, h⟩
    obtain ⟨hdaemonUrl, huser, hpasswd, hmove, htimeout, hchunk, htouch, hlog⟩ :=
      ofTable_eq_some_iff.mp h
    exact ⟨(exists_field_iff isSome_text?_iff _).mp ⟨_, hdaemonUrl⟩,
      (exists_field_iff isSome_map_text?_iff _).mp ⟨_, huser⟩,
      (exists_field_iff isSome_map_text?_iff _).mp ⟨_, hpasswd⟩,
      (exists_field_iff isSome_natural?_iff _).mp ⟨_, hmove⟩,
      (exists_field_iff isSome_natural?_iff _).mp ⟨_, htimeout⟩,
      (exists_field_iff isSome_natural?_iff _).mp ⟨_, hchunk⟩,
      (exists_field_iff isSome_flag?_iff _).mp ⟨_, htouch⟩,
      (exists_field_iff isSome_text?_iff _).mp ⟨_, hlog⟩⟩
  · -- Each kind that agrees lets its field be read, and the fields make up the settings.
    rintro ⟨hdaemonUrl, huser, hpasswd, hmove, htimeout, hchunk, htouch, hlog⟩
    obtain ⟨daemonUrl, hdaemonUrl⟩ := (exists_field_iff isSome_text?_iff _).mpr hdaemonUrl
    obtain ⟨user, huser⟩ := (exists_field_iff isSome_map_text?_iff _).mpr huser
    obtain ⟨passwd, hpasswd⟩ := (exists_field_iff isSome_map_text?_iff _).mpr hpasswd
    obtain ⟨moveIntervalMs, hmove⟩ := (exists_field_iff isSome_natural?_iff _).mpr hmove
    obtain ⟨httpTimeoutSecs, htimeout⟩ := (exists_field_iff isSome_natural?_iff _).mpr htimeout
    obtain ⟨uploadChunkSize, hchunk⟩ := (exists_field_iff isSome_natural?_iff _).mpr hchunk
    obtain ⟨touchCapture, htouch⟩ := (exists_field_iff isSome_flag?_iff _).mpr htouch
    obtain ⟨logLevel, hlog⟩ := (exists_field_iff isSome_text?_iff _).mpr hlog
    exact ⟨⟨daemonUrl, user, passwd, moveIntervalMs, httpTimeoutSecs, uploadChunkSize,
      touchCapture, logLevel⟩, ofTable_eq_some_iff.mpr
        ⟨hdaemonUrl, huser, hpasswd, hmove, htimeout, hchunk, htouch, hlog⟩⟩

/-- What settings a table gives. -/
theorem reads_of_ofTable (htable : table.Sized) {s : Settings} (h : ofTable table = some s) :
    s.Reads table := by
  obtain ⟨hdaemonUrl, huser, hpasswd, hmove, htimeout, hchunk, htouch, hlog⟩ :=
    ofTable_eq_some_iff.mp h
  exact {
    daemonUrl := eq_of_field hdaemonUrl
    user := eq_of_field_map_some huser
    passwd := eq_of_field_map_some hpasswd
    moveIntervalMs := toNat_field_natural htable hmove
    httpTimeoutSecs := toNat_field_natural htable htimeout
    uploadChunkSize := toNat_field_natural htable hchunk
    touchCapture := eq_of_field htouch
    logLevel := eq_of_field hlog }

/-! ## Documents -/

/-- What is wrong with a document. The kinds of all its values come first, then the size of the
    pieces, then the pace of moves. -/
inductive Refused (text : String) : String → Prop
  | unparsed : Toml.parse text = none → Refused text "failed to parse config TOML"
  | illTyped {table : Entries} :
    Toml.parse text = some table → ¬WellTyped table → Refused text "failed to parse config TOML"
  | chunkTooSmall {table : Entries} :
    Toml.parse text = some table → WellTyped table → chunkSizeAt table < 1024 →
      Refused text
        ("upload_chunk_size must be at least 1024 bytes, got " ++ toString (chunkSizeAt table))
  | zeroMoveInterval {table : Entries} :
    Toml.parse text = some table → WellTyped table → 1024 ≤ chunkSizeAt table →
      moveIntervalAt table = 0 → Refused text "move_interval_ms must be greater than zero"

/-- A document that gives settings: they are valid, and what its table says. -/
structure Accepted (text : String) (table : Entries) (s : Settings) : Prop where
  parsed : Toml.parse text = some table
  reads : s.Reads table
  valid : s.validate = .ok ()

/-- The chunk size is checked first, and then the interval between moves. -/
private theorem validate_cases (s : Settings) :
    (s.uploadChunkSize.toNat < 1024 ∧ s.validate = .error (.chunkTooSmall s.uploadChunkSize)) ∨
    (1024 ≤ s.uploadChunkSize.toNat ∧ s.moveIntervalMs.toNat = 0 ∧
      s.validate = .error .zeroMoveInterval) ∨
    (1024 ≤ s.uploadChunkSize.toNat ∧ s.moveIntervalMs.toNat ≠ 0 ∧ s.validate = .ok ()) := by
  have hchunk : s.uploadChunkSize < minChunkSize ↔ s.uploadChunkSize.toNat < 1024 :=
    UInt64.lt_iff_toNat_lt
  have hmove : s.moveIntervalMs = 0 ↔ s.moveIntervalMs.toNat = 0 := UInt64.toNat_inj.symm
  simp only [validate, hchunk, hmove]
  split_ifs <;> simp <;> omega

/-- The refusal names the chunk size it was given. -/
private theorem message_chunkTooSmall (size : UInt64) :
    (Fault.invalid (.chunkTooSmall size)).message =
      "upload_chunk_size must be at least 1024 bytes, got " ++ toString (size.toNat : Int) := by
  have hleft : "upload_chunk_size must be at least " ++ toString minChunkSize.toNat ++
      " bytes, got " = "upload_chunk_size must be at least 1024 bytes, got " := by
    decide +kernel
  exact congrArg (· ++ toString size.toNat) hleft

variable {text : String}

/-- A text that is no TOML is refused as malformed. -/
private theorem ofText_of_unparsed (h : Toml.parse text = none) :
    ofText text = .error .malformed := by
  rw [ofText, h]
  rfl

/-- A document with a value of the wrong kind is refused as malformed. -/
private theorem ofText_of_illTyped (h : Toml.parse text = some table) (htyped : ¬WellTyped table) :
    ofText text = .error .malformed := by
  have hnone : ofTable table = none :=
    Option.eq_none_iff_forall_ne_some.mpr fun s hs => htyped (exists_ofTable_iff.mp ⟨s, hs⟩)
  rw [ofText, h, Option.bind_some, hnone]

/-- Whether a well typed document is accepted is a matter of its settings. -/
theorem exists_reads (h : Toml.parse text = some table) (htyped : WellTyped table) :
    ∃ s : Settings, s.Reads table ∧
      (∀ reason, s.validate = .error reason → ofText text = .error (.invalid reason)) ∧
      (s.validate = .ok () → ofText text = .ok s) := by
  obtain ⟨s, hs⟩ := exists_ofTable_iff.mpr htyped
  refine ⟨s, reads_of_ofTable (Toml.sized_of_parse h) hs, fun reason hvalid => ?_,
    fun hvalid => ?_⟩
  · simp only [ofText, h, Option.bind_some, hs, hvalid]
  · simp only [ofText, h, Option.bind_some, hs, hvalid]

/-- A document is refused with a reason, or accepted. -/
theorem ofText_cases (text : String) :
    (∃ fault, ofText text = .error fault ∧ fault.causes = [] ∧ Refused text fault.message) ∨
    ∃ table s, ofText text = .ok s ∧ Accepted text table s := by
  cases hparse : Toml.parse text with
  | none => exact .inl ⟨_, ofText_of_unparsed hparse, rfl, .unparsed hparse⟩
  | some table =>
    by_cases htyped : WellTyped table
    · obtain ⟨s, hs, herror, hok⟩ := exists_reads hparse htyped
      have hchunk := hs.uploadChunkSize
      have hmove := hs.moveIntervalMs
      rcases validate_cases s with ⟨hsmall, hvalid⟩ | ⟨hlarge, hzero, hvalid⟩ | ⟨-, -, hvalid⟩
      · -- The chunk size is refused with its value in the message.
        refine .inl ⟨_, herror _ hvalid, rfl, ?_⟩
        rw [message_chunkTooSmall, hchunk]
        exact .chunkTooSmall hparse htyped (by omega)
      · exact .inl ⟨_, herror _ hvalid, rfl,
          .zeroMoveInterval hparse htyped (by omega) (by omega)⟩
      · exact .inr ⟨table, s, hok hvalid, hparse, hs, hvalid⟩
    · exact .inl ⟨_, ofText_of_illTyped hparse htyped, rfl, .illTyped hparse htyped⟩

/-- A document with which something is wrong is refused for just that. -/
theorem Refused.ofText {reason : String} (h : Refused text reason) :
    ∃ fault, ofText text = .error fault ∧ fault.causes = [] ∧ fault.message = reason := by
  cases h with
  | unparsed hparse => exact ⟨_, ofText_of_unparsed hparse, rfl, rfl⟩
  | illTyped hparse htyped => exact ⟨_, ofText_of_illTyped hparse htyped, rfl, rfl⟩
  | @chunkTooSmall table hparse htyped hsize =>
    obtain ⟨s, hs, herror, -⟩ := exists_reads hparse htyped
    have hchunk := hs.uploadChunkSize
    -- The chunk size is checked first, and it is too small.
    rcases validate_cases s with ⟨-, hvalid⟩ | ⟨hlarge, -⟩ | ⟨hlarge, -⟩
    · exact ⟨_, herror _ hvalid, rfl, by rw [message_chunkTooSmall, hchunk]⟩
    · omega
    · omega
  | @zeroMoveInterval table hparse htyped hsize hinterval =>
    obtain ⟨s, hs, herror, -⟩ := exists_reads hparse htyped
    have hchunk := hs.uploadChunkSize
    have hmove := hs.moveIntervalMs
    -- The chunk size passes, and so the interval is looked at.
    rcases validate_cases s with ⟨hsmall, -⟩ | ⟨-, -, hvalid⟩ | ⟨-, hpositive, -⟩
    · omega
    · exact ⟨_, herror _ hvalid, rfl, rfl⟩
    · omega

end KvmConsole.Settings
