import KvmConsole.CommandLine.Program
import KvmConsole.Proofs.CommandLine.Options
import KvmConsole.Proofs.Settings

/-!
# The layers of the settings

A setting is that of the option, or else that of the environment, or else that of the document, or
else the default one. A document that cannot be used is refused, whatever lies over it, and what
lies over it touches nothing that makes settings invalid.

Key results:
* `layered_override`: options over the settings of a document.
* `layered_of_settings`: where the settings of a run come from.
* `settings_eq_error_iff`: when there are none.
* `settings_by_layers`: both, from the words of the command line on.
-/

namespace KvmConsole.CommandLine

open Settings (textAt integerAt flagAt Refused Accepted)

variable {words : List String} {environment : Environment} {files : Files} {a : Arguments}
  {s : Settings} {given : List (Slot × String)} {path : String}

/-- The table that settings are taken from: that of the document at a path, or an empty one. -/
inductive Consulted (files : Files) : Option String → Toml.Entries → Prop
  | nothing : Consulted files none []
  | document {path text : String} {table : Toml.Entries} :
    files.readText path = .ok text → Toml.parse text = some table →
      Consulted files (some path) table

/-- What each of the settings is. -/
structure Layered (environment : Environment) (given : List (Slot × String))
    (table : Toml.Entries) (s : Settings) : Prop where
  daemonUrl : s.daemonUrl =
    (((given.lookup .url).or (environment "KVMD_URL")).or (textAt table "daemon_url")).getD
      "http://127.0.0.1"
  user : s.user =
    ((given.lookup .user).or (environment "KVMD_USER")).or (textAt table "user")
  passwd : s.passwd =
    ((given.lookup .passwd).or (environment "KVMD_PASSWD")).or (textAt table "passwd")
  touchCapture : s.touchCapture = true ↔
    (given.lookup .touch).isSome ∨ flagAt table "touch_capture" = some true
  moveIntervalMs : (s.moveIntervalMs.toNat : Int) = (integerAt table "move_interval_ms").getD 100
  httpTimeoutSecs : (s.httpTimeoutSecs.toNat : Int) = (integerAt table "http_timeout_secs").getD 30
  uploadChunkSize :
    (s.uploadChunkSize.toNat : Int) = (integerAt table "upload_chunk_size").getD 65536
  logLevel : s.logLevel = (textAt table "log_level").getD "info"

/-! ## Options over a document -/

/-- Nothing on the command line can make settings invalid. -/
private theorem validate_override (a : Arguments) (s : Settings) :
    (a.override s).validate = s.validate :=
  rfl

/-- What overrides the settings of a document is layered over them. -/
theorem layered_override {table : Toml.Entries} (ha : a.Holds environment given)
    (hs : s.Reads table) : Layered environment given table (a.override s) where
  daemonUrl := by
    simp only [Arguments.override, ha.url, hs.daemonUrl, Option.getD_or]
  user := by simp only [Arguments.override, ha.user, hs.user]
  passwd := by simp only [Arguments.override, ha.passwd, hs.passwd]
  -- The flag can only be set: leaving it out does not undo what the document says.
  touchCapture := by
    simp only [Arguments.override, ha.touch, hs.touchCapture, Bool.or_eq_true]
    cases flagAt table "touch_capture" <;> simp
  moveIntervalMs := hs.moveIntervalMs
  httpTimeoutSecs := hs.httpTimeoutSecs
  uploadChunkSize := hs.uploadChunkSize
  logLevel := hs.logLevel

/-- The default settings are those of an empty document. -/
private theorem reads_nil : ({} : Settings).Reads [] where
  daemonUrl := rfl
  user := rfl
  passwd := rfl
  moveIntervalMs := rfl
  httpTimeoutSecs := rfl
  uploadChunkSize := rfl
  touchCapture := rfl
  logLevel := rfl

/-! ## Settings of a run -/

section Document

variable {text : String} (hconfig : a.config = some path) (htext : files.readText path = .ok text)

include hconfig htext

/-- A document that is refused stops the run and is named in its message. -/
private theorem settings_of_refused {fault : Settings.Fault}
    (h : Settings.ofText text = .error fault)
    (hcauses : fault.causes = []) :
    a.settings files = .error ⟨"cannot load config from " ++ path, [fault.message]⟩ := by
  simp only [Arguments.settings, hconfig, Settings.load, htext, h, hcauses]

/-- A document that is accepted gives the settings that the options override. -/
private theorem settings_of_accepted (h : Settings.ofText text = .ok s) :
    a.settings files = .ok (a.override s) := by
  simp only [Arguments.settings, hconfig, Settings.load, htext, h]

/-- What comes of a document that can be read: a complaint about it, or settings. -/
theorem settings_eq_error_iff (failure : Failure) :
    a.settings files = .error failure ↔
      ∃ reason, Refused text reason ∧
        failure = ⟨"cannot load config from " ++ path, [reason]⟩ := by
  constructor
  · intro h
    rcases Settings.ofText_cases text with ⟨fault, hfault, hcauses, hrefused⟩ | ⟨_, s, hs, -⟩
    · rw [settings_of_refused hconfig htext hfault hcauses] at h
      exact ⟨fault.message, hrefused, (Except.error.inj h).symm⟩
    · rw [settings_of_accepted hconfig htext hs] at h
      cases h
  · rintro ⟨reason, hrefused, rfl⟩
    obtain ⟨fault, hfault, hcauses, rfl⟩ := hrefused.ofText
    exact settings_of_refused hconfig htext hfault hcauses

end Document

/-- Settings come from options over a table that has been consulted, and are valid. -/
theorem layered_of_settings (ha : a.Holds environment given) (h : a.settings files = .ok s) :
    ∃ table, Consulted files a.config table ∧ Layered environment given table s ∧
      s.validate = .ok () := by
  -- Without a path nothing is consulted, and the defaults are valid.
  cases hconfig : a.config with
  | none =>
    simp only [Arguments.settings, hconfig] at h
    cases h
    exact ⟨[], .nothing, layered_override ha reads_nil, rfl⟩
  | some path =>
    cases htext : files.readText path with
    | error reason =>
      simp only [Arguments.settings, hconfig, Settings.load, htext] at h
      cases h
    | ok text =>
      rcases Settings.ofText_cases text with
        ⟨fault, hfault, hcauses, -⟩ | ⟨table, s', hs', haccepted⟩
      · rw [settings_of_refused hconfig htext hfault hcauses] at h
        cases h
      · rw [settings_of_accepted hconfig htext hs'] at h
        cases h
        exact ⟨table, .document htext haccepted.parsed, layered_override ha haccepted.reads,
          (validate_override a s').trans haccepted.valid⟩

/-- The settings of a program whose command line can be read. They are taken field by field from
    what is given in front of the command, from the environment, from the document and from the
    defaults, in this order, and they are valid. A document that can be read is refused just if
    there is something wrong with it, whatever else is given. -/
theorem settings_by_layers (words : List String) (environment : Environment) (files : Files)
    (a : Arguments) (hread : Arguments.ofWords environment words = .ok a) :
    (∃ given, Gives words given) ∧
    ∀ given, Gives words given →
      (∀ s, a.settings files = .ok s →
        ∃ table,
          Consulted files ((given.lookup .config).or (environment "KVMD_CONSOLE_CONFIG")) table ∧
          Layered environment given table s ∧ s.validate = .ok ()) ∧
      ∀ path text, (given.lookup .config).or (environment "KVMD_CONSOLE_CONFIG") = some path →
        files.readText path = .ok text →
        ∀ failure, a.settings files = .error failure ↔
          ∃ reason, Refused text reason ∧
            failure = ⟨"cannot load config from " ++ path, [reason]⟩ := by
  refine ⟨Arguments.exists_gives hread, fun given hgiven => ?_⟩
  have ha : a.Holds environment given := Arguments.holds_of_gives hread hgiven
  -- The path is the one that the arguments hold.
  rw [← ha.config]
  exact ⟨fun s hs => layered_of_settings ha hs,
    fun path text hconfig htext failure => settings_eq_error_iff hconfig htext failure⟩

/-- A user on the command line, an address in the environment, a pace in the document. -/
theorem settings_by_layers_root :
    let words := ["--user=root", "-c", "console.toml", "--touch", "watch"]
    let environment : Environment := fun name =>
      if name = "KVMD_URL" then some "http://10.0.0.1" else none
    let files : Files := fun path =>
      if path = "console.toml" then
        some (.file "colour = true\nuser = \"admin\"\nmove_interval_ms = 50\n".toUTF8)
      else none
    let given : List (Slot × String) := [(.user, "root"), (.config, "console.toml"), (.touch, "")]
    let s : Settings :=
      { daemonUrl := "http://10.0.0.1", user := some "root", moveIntervalMs := 50,
        touchCapture := true }
    ∃ a, Arguments.ofWords environment words = .ok a ∧ Gives words given ∧
      a.settings files = .ok s ∧
      ∃ table, Consulted files (some "console.toml") table ∧ Layered environment given table s ∧
        s.validate = .ok () := by
  intro words environment files given s
  have hread : Arguments.ofWords environment words =
      .ok ⟨some "console.toml", some "http://10.0.0.1", some "root", none, true, .watch⟩ := by
    decide +kernel
  have hsettings : Arguments.settings
      ⟨some "console.toml", some "http://10.0.0.1", some "root", none, true, .watch⟩ files =
        .ok s := by
    decide +kernel
  -- Three options, of which the middle one has its value in the next word.
  have hgives : Gives words given := by
    refine ⟨["--user=root", "-c", "console.toml", "--touch"], "watch", .watch, [], rfl, rfl,
      .joined ?_ (.apart ?_ (by decide) (.joined ?_ .nil))⟩
    · exact @Names.longValue "user" .user "root" rfl
    · exact Names.short rfl
    · exact @Names.flag "touch" .touch rfl
  obtain ⟨-, hall⟩ := settings_by_layers words environment files _ hread
  exact ⟨_, hread, hgives, hsettings, (hall given hgives).1 s hsettings⟩

end KvmConsole.CommandLine
