import KvmConsole.Proofs.Daemon.Addresses

/-!
# The login

A login is put into the headers of requests, so it must not have a character that would end a
header or start another one. It is checked before there is a client; from then on every request
bears it as it stands in the settings, that for the control channel too, for which the headers are
made a second time.

Key results:
* `loginHeaders_of_sound`, `sound_of_loginHeaders`: which logins can be sent, and in what headers.
* `headers_of_makes`: what the requests of a client bear.
* `login_as_in_settings`: when settings are refused, and what is sent if they are not.
-/

namespace KvmConsole.Daemon.Client

/-! ## The check -/

/-- Some character of a text must not be in a header: a control other than a tab, or a delete. -/
def BreaksHeader (text : String) : Prop :=
  ∃ c ∈ text.toList, c.toNat < 0x20 ∧ c ≠ '\t' ∨ c.toNat = 0x7f

/-- Control characters are refused, but for the tabulator. -/
private theorem isHeaderChar_eq_false_iff (c : Char) :
    isHeaderChar c = false ↔ c.toNat < 0x20 ∧ c ≠ '\t' ∨ c.toNat = 0x7f := by
  simp only [isHeaderChar, Bool.or_eq_false_iff, decide_eq_false_iff_not, Bool.and_eq_false_iff,
    not_le, ne_eq, not_not]
  have htab : '\t'.toNat = 9 := rfl
  by_cases hc : c = '\t'
  · subst hc
    simp [htab]
  · simp [hc]

/-- A text breaks a header if one of its characters is refused. -/
private theorem breaksHeader_iff (text : String) :
    BreaksHeader text ↔ text.toList.all isHeaderChar = false := by
  simp only [BreaksHeader, List.all_eq_false, Bool.not_eq_true, isHeaderChar_eq_false_iff]

/-- A text that breaks a header is an error that names the header. -/
private theorem headerValue_of_breaksHeader {text : String} (h : BreaksHeader text)
    (name : String) :
    headerValue name text = .error (.invalidHeader name) := by
  simp [headerValue, (breaksHeader_iff _).mp h]

/-- A text without such a character is sent as it stands. -/
private theorem headerValue_of_sound {text : String} (h : ¬BreaksHeader text) (name : String) :
    headerValue name text = .ok text := by
  rw [breaksHeader_iff, Bool.not_eq_false] at h
  simp [headerValue, h]

/-- An empty password is as good as any. -/
private theorem not_breaksHeader_empty : ¬BreaksHeader "" := by
  rintro ⟨c, hc, -⟩
  cases hc

/-- The headers that bear the login of some settings. -/
def headersOf (s : Settings) : List (String × String) :=
  match s.user with
  | none => []
  | some user => [("x-kvmd-user", user), ("x-kvmd-passwd", s.passwd.getD "")]

section Settings

variable {s : Settings}

/-- Without a user there are no headers. -/
private theorem loginHeaders_of_noUser (huser : s.user = none) :
    loginHeaders s.credentials = .ok [] := by
  rw [Settings.credentials, huser]
  rfl

/-- With a user, the headers are the two values that have been checked, one after the other. -/
private theorem loginHeaders_of_user {user : String} (huser : s.user = some user) :
    loginHeaders s.credentials =
      (headerValue userHeader user).bind fun user =>
        (headerValue passwdHeader (s.passwd.getD "")).map fun passwd =>
          [(userHeader, user), (passwdHeader, passwd)] := by
  rw [Settings.credentials, huser]
  rfl

/-- The two values of a login that have passed the check. -/
theorem sound_of_loginHeaders {headers : List (String × String)}
    (h : loginHeaders s.credentials = .ok headers) {user : String} (huser : s.user = some user) :
    ¬BreaksHeader user ∧ ¬BreaksHeader (s.passwd.getD "") := by
  rw [loginHeaders_of_user huser] at h
  by_cases hbreaks : BreaksHeader user
  · rw [headerValue_of_breaksHeader hbreaks] at h
    cases h
  · refine ⟨hbreaks, fun hpasswd => ?_⟩
    rw [headerValue_of_sound hbreaks, headerValue_of_breaksHeader hpasswd] at h
    cases h

/-- What is put into headers is the login as it stands in the settings. -/
theorem loginHeaders_of_sound
    (h : ∀ user, s.user = some user → ¬BreaksHeader user ∧ ¬BreaksHeader (s.passwd.getD "")) :
    loginHeaders s.credentials = .ok (headersOf s) := by
  cases huser : s.user with
  | none => rw [loginHeaders_of_noUser huser, headersOf, huser]
  | some user =>
    obtain ⟨hsound, hpasswd⟩ := h user huser
    rw [loginHeaders_of_user huser, headerValue_of_sound hsound, headerValue_of_sound hpasswd,
      headersOf, huser]
    rfl

/-- The credentials can be told from the headers. -/
private theorem credentials_of_headers {r : Request} (h : r.headers = headersOf s) :
    r.credentials = s.user.map fun user => ⟨user, s.passwd.getD ""⟩ := by
  rw [Request.credentials, h, headersOf]
  cases s.user <;> rfl

end Settings

/-! ## The requests of a client -/

/-- The requests that a client makes: for the status, for commands, for uploads and for the control
    channel. -/
inductive Makes (c : Client) : Request → Prop where
  | status (network : Network) {r : Request} (h : r ∈ (c.status network).requests) : Makes c r
  | command (command : Msd.Command) (network : Network) {r : Request}
    (h : r ∈ (c.command command network).requests) : Makes c r
  | upload (id : Msd.UploadId) (file : Msd.ImageFile) (files : Files) (limits : List Nat)
    (network : Network) {r : Request}
    (h : r ∈ (c.upload id file files limits network).requests) : Makes c r
  | channel (network : Network) {r : Request} (h : r ∈ (c.openChannel network).requests) : Makes c r

/-- The headers of a client are those of the login in its settings. -/
private theorem headers_of_ofSettings {s : Settings} {c : Client} (h : ofSettings s = .ok c) :
    c.headers = headersOf s := by
  obtain ⟨-, hheaders, -⟩ := ofSettings_eq_ok_iff.mp h
  have hsame := loginHeaders_of_sound fun user huser => sound_of_loginHeaders hheaders huser
  exact Except.ok.inj (hheaders.symm.trans hsame)

/-- A request that is sent has the headers of its client. -/
private theorem headers_of_send {c : Client} {method : Method} {url : Url} {payload : Payload}
    {network : Network} {r : Request} (h : r ∈ (c.send method url payload network).requests) :
    r.headers = c.headers := by
  have hr : r = c.request method url payload := by
    unfold send at h
    dsimp only at h
    split at h
    · cases h
    all_goals exact List.mem_singleton.mp h
  rw [hr]
  rfl

/-- A request below the base has the headers of its client. -/
private theorem headers_of_sendTo {c : Client} {method : Method} {path : String}
    {query : Option String} {payload : Payload} {network : Network} {r : Request}
    (h : r ∈ (c.sendTo method path query payload network).requests) :
    r.headers = c.headers := by
  unfold sendTo at h
  split at h
  · cases h
  · exact headers_of_send h

/-- The request for a control channel can always be made: the second check finds what the first one
    found. The headers that are added to it one by one are those of the other requests. -/
private theorem exists_channelRequest {s : Settings} {c : Client} (h : ofSettings s = .ok c) :
    ∃ r, c.channelRequest = .ok r ∧ r.headers = headersOf s := by
  obtain ⟨url, hparse, hweb, hbase⟩ := exists_base_eq h
  obtain ⟨_, -, hchannel⟩ := channelUrl_eq_of_base hparse hweb hbase
  obtain ⟨-, hheaders, hcredentials, -⟩ := ofSettings_eq_ok_iff.mp h
  simp only [channelRequest, hchannel, hcredentials, Settings.credentials, headersOf]
  cases huser : s.user with
  | none => exact ⟨_, rfl, rfl⟩
  | some user =>
    obtain ⟨hsound, hpasswd⟩ := sound_of_loginHeaders hheaders huser
    simp only [Option.map_some, headerValue_of_sound hsound, headerValue_of_sound hpasswd]
    exact ⟨_, rfl, rfl⟩

/-- All requests of a client bear the headers of the login in its settings. -/
theorem headers_of_makes {s : Settings} {c : Client} (hc : ofSettings s = .ok c) {r : Request}
    (h : c.Makes r) : r.headers = headersOf s := by
  rw [← headers_of_ofSettings hc]
  cases h with
  | status network h => exact headers_of_sendTo h
  | command command network h => exact headers_of_sendTo h
  | upload id file files limits network h =>
    unfold upload at h
    -- A file that cannot be read leads to no request at all.
    split at h
    · cases h
    · cases h
    · exact headers_of_send h
  | channel network h =>
    obtain ⟨request, hrequest, hheaders⟩ := exists_channelRequest hc
    -- There is one request at most, and it is the one that has been built.
    have hr : r = request := by
      simp only [openChannel, hrequest] at h
      split at h
      · cases h
      all_goals exact List.mem_singleton.mp h
    rw [hr, hheaders, headers_of_ofSettings hc]

/-- Once the request is built, its headers are no obstacle. -/
private theorem openChannel_ne_invalidHeader {c : Client} {request : Request}
    (hrequest : c.channelRequest = .ok request) (network : Network) (name : String) :
    (c.openChannel network).result ≠ .error (.invalidHeader name) := by
  simp only [openChannel, hrequest]
  split <;> nofun

/-! ## Settings and requests -/

/-- A base that cannot be read is an error about the address. -/
private theorem readBase_error {text : String} {e : Failure} (h : readBase text = .error e) :
    ∃ description, e = .invalidUrl description := by
  unfold readBase at h
  split at h
  · exact ⟨_, (Except.error.inj h).symm⟩
  · split at h
    · cases h
    · exact ⟨_, (Except.error.inj h).symm⟩

section Settings

variable {s : Settings} {base : Url} (hbase : readBase s.daemonUrl = .ok base)
include hbase

/-- Settings with an address that can be used are refused for their login only. -/
private theorem ofSettings_of_readBase :
    ofSettings s = (loginHeaders s.credentials).map fun headers =>
      ⟨base, headers, s.credentials, s.uploadChunkSize.toNat⟩ := by
  simp only [ofSettings, hbase]

end Settings

/-- Nothing but the login of the settings gets into headers, and that only if it cannot break one:
    an address that cannot be used is reported first, then a user and then a password with a control
    in it. What the settings then allow is sent with every request, also with the one for the
    control channel, and nothing is sent without a user. -/
theorem login_as_in_settings (s : Settings) :
    (∀ e, readBase s.daemonUrl = .error e →
      ofSettings s = .error e ∧ ∃ description, e = .invalidUrl description) ∧
    (∀ base, readBase s.daemonUrl = .ok base →
      ((∃ user, s.user = some user ∧ BreaksHeader user) →
        ofSettings s = .error (.invalidHeader "x-kvmd-user")) ∧
      ((∃ user passwd, s.user = some user ∧ ¬BreaksHeader user ∧
          s.passwd = some passwd ∧ BreaksHeader passwd) →
        ofSettings s = .error (.invalidHeader "x-kvmd-passwd")) ∧
      ((∀ user, s.user = some user →
          ¬BreaksHeader user ∧ ∀ passwd, s.passwd = some passwd → ¬BreaksHeader passwd) →
        ∃ c, ofSettings s = .ok c)) ∧
    (∀ c, ofSettings s = .ok c →
      (∀ r, c.Makes r → r.headers = headersOf s ∧
        r.credentials = s.user.map fun user => ⟨user, s.passwd.getD ""⟩) ∧
      (∃ r, c.channelRequest = .ok r ∧ r.headers = headersOf s ∧
        r.credentials = s.user.map fun user => ⟨user, s.passwd.getD ""⟩) ∧
      ∀ network name, (c.openChannel network).result ≠ .error (.invalidHeader name)) := by
  refine ⟨fun e he => ⟨by rw [ofSettings, he], readBase_error he⟩,
    fun base hbase => ⟨?_, ?_, ?_⟩, fun c hc => ?_⟩
  · -- The user is looked at before the password.
    rintro ⟨user, huser, hbreaks⟩
    rw [ofSettings_of_readBase hbase, loginHeaders_of_user huser,
      headerValue_of_breaksHeader hbreaks]
    rfl
  · rintro ⟨user, passwd, huser, hsound, hpasswd, hbreaks⟩
    rw [ofSettings_of_readBase hbase, loginHeaders_of_user huser, headerValue_of_sound hsound,
      hpasswd, Option.getD_some, headerValue_of_breaksHeader hbreaks]
    rfl
  · intro hsound
    have hlogin : ∀ user, s.user = some user →
        ¬BreaksHeader user ∧ ¬BreaksHeader (s.passwd.getD "") := by
      intro user huser
      refine ⟨(hsound user huser).1, ?_⟩
      -- Without a password an empty one is sent, which breaks no header.
      cases hset : s.passwd with
      | none => exact not_breaksHeader_empty
      | some passwd => exact (hsound user huser).2 passwd hset
    rw [ofSettings_of_readBase hbase, loginHeaders_of_sound hlogin]
    exact ⟨_, rfl⟩
  · obtain ⟨request, hrequest, hheaders⟩ := exists_channelRequest hc
    refine ⟨fun r hr => ?_, ⟨request, hrequest, hheaders, credentials_of_headers hheaders⟩,
      openChannel_ne_invalidHeader hrequest⟩
    have hlogin := headers_of_makes hc hr
    exact ⟨hlogin, credentials_of_headers hlogin⟩

/-- A user that would bring a password of its own. -/
theorem login_as_in_settings_forged :
    ofSettings { user := some "op\r\nx-kvmd-passwd: guess" } =
      .error (.invalidHeader "x-kvmd-user") := by
  have hbase : readBase "http://127.0.0.1" =
      .ok ⟨"http", some ⟨.none, .ipv4 0x7f000001, none⟩, .segments [""], none, none⟩ := by
    decide +kernel
  exact ((login_as_in_settings _).2.1 _ hbase).1 ⟨_, rfl, '\r', by decide, by decide⟩

end KvmConsole.Daemon.Client
