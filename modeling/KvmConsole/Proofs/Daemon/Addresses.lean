import KvmConsole.Proofs.Daemon.Requests
import KvmConsole.Proofs.Url.TrailingSlash

/-!
# Where a client goes

All addresses of a client that was made from settings are below the address in the settings. They
keep its scheme, user, password, host and port; its query and its fragment go. The address of the
control channel has the scheme of a channel and is one of them otherwise.

Key results:
* `endpoint_eq_of_base`: an address below the base.
* `channelUrl_eq_of_base`: the scheme of a channel can always be put in front of one.
* `addresses_below_base`: all of it, and that a slash at the end of the base makes no difference.
-/

namespace KvmConsole.Daemon.Client

/-! ## The base -/

/-- A path with a slash at its end, whether or not it has one. -/
def slashed (path : String) : String :=
  if path.toList.getLast? = some '/' then path else path ++ "/"

/-- The client closes a path as the library of addresses does. -/
private theorem closePath_eq_closed (path : Url.Path) : closePath path = path.closed := by
  cases path <;> rfl

/-- A closed path ends in a slash, and one that ends in a slash stays. -/
private theorem text_closeSegments {list : List String}
    (h : ∀ segment ∈ list, '/' ∉ segment.toList) :
    (Url.Path.segments (Url.closeSegments list)).text =
      slashed (Url.Path.segments list).text := by
  rcases List.eq_nil_or_concat list with rfl | ⟨before, last, rfl⟩
  · decide
  · rw [List.concat_eq_append] at h ⊢
    have htext (segments : List String) (segment : String) :
        (Url.Path.segments (segments ++ [segment])).text =
          (Url.Path.segments segments).text ++ "/" ++ segment := by
      simp [Url.Path.text, String.join_append, String.append_assoc]
    by_cases hlast : last = ""
    · subst hlast
      rw [Url.closeSegments_concat_empty, slashed, if_pos]
      simp [htext]
    · rw [Url.closeSegments_concat hlast, slashed, if_neg, htext, String.append_empty]
      -- The path ends in the last segment, and that has no slash in it.
      obtain ⟨chars, c, hchars⟩ : ∃ chars c, last.toList = chars ++ [c] := by
        rcases List.eq_nil_or_concat last.toList with hnil | ⟨chars, c, hchars⟩
        · exact absurd (String.toList_eq_nil_iff.mp hnil) hlast
        · exact ⟨chars, c, by rw [hchars, List.concat_eq_append]⟩
      have hc : '/' ≠ c := by
        have hmem := h last (by simp)
        rw [hchars] at hmem
        exact fun heq => hmem (by rw [heq]; simp)
      rw [htext, String.toList_append, hchars, ← List.append_assoc, List.getLast?_concat,
        Option.some.injEq]
      exact hc.symm

/-- The base of a client is the address in its settings, with a slash at its end. -/
theorem exists_base_eq {s : Settings} {c : Client} (h : ofSettings s = .ok c) :
    ∃ url, Url.parse s.daemonUrl = .ok url ∧ Url.IsWeb url.scheme ∧ c.base = url.closed := by
  obtain ⟨hbase, -⟩ := ofSettings_eq_ok_iff.mp h
  obtain ⟨url, hparse, hweb, hc⟩ := exists_parse_of_readBase hbase
  exact ⟨url, hparse, hweb, by rw [hc, closePath_eq_closed]; rfl⟩

/-- Whatever an address looks like, a client goes to the address with a slash at its end. -/
private theorem ofSettings_of_base {s : Settings} {c : Client} (h : ofSettings s = .ok c)
    {text : String}
    {url : Url} (hparse : Url.parse text = .ok url) (hweb : Url.IsWeb url.scheme)
    (hbase : c.base = url.closed) : ofSettings { s with daemonUrl := text } = .ok c := by
  obtain ⟨-, hlogin⟩ := ofSettings_eq_ok_iff.mp h
  refine ofSettings_eq_ok_iff.mpr ⟨?_, hlogin⟩
  simp only [readBase, hparse]
  rw [if_pos (show url.scheme = "http" ∨ url.scheme = "https" from hweb), hbase,
    closePath_eq_closed]
  rfl

/-! ## Addresses below the base -/

/-- The paths under which the daemon is asked for something. -/
def apiPaths : List String :=
  ["kvmd/msd", "kvmd/msd/connect", "kvmd/msd/reset", "kvmd/msd/write", "kvmd/ws"]

/-- The client has no other paths. -/
private theorem mem_apiPaths (command : Msd.Command) :
    statusPath ∈ apiPaths ∧ commandPath command ∈ apiPaths ∧ writePath ∈ apiPaths ∧
      channelPath ∈ apiPaths := by
  rcases command with target | _
  · cases target <;> decide
  · decide

/-- The path of the channel needs no encoding. -/
private theorem isPlain_channelPath : Url.IsPlain channelPath ["kvmd", "ws"] := by
  constructor <;> decide

/-- No path of the daemon's interface needs encoding. -/
private theorem exists_isPlain_of_mem {path : String} (h : path ∈ apiPaths) :
    ∃ segments, Url.IsPlain path segments := by
  simp only [apiPaths, List.mem_cons, List.not_mem_nil, or_false] at h
  rcases h with rfl | rfl | rfl | rfl | rfl
  · exact ⟨_, isPlain_statusPath⟩
  · exact ⟨_, isPlain_connectPath⟩
  · exact ⟨_, isPlain_resetPath⟩
  · exact ⟨_, isPlain_writePath⟩
  · exact ⟨_, isPlain_channelPath⟩

/-- An address below the one in the settings. -/
theorem endpoint_eq_of_base {c : Client} {url : Url} (hbase : c.base = url.closed)
    (hweb : Url.IsWeb url.scheme) {list : List String} (hlist : url.path = .segments list)
    (hslash : ∀ segment ∈ list, '/' ∉ segment.toList) {path : String} {segments : List String}
    (h : Url.IsPlain path segments) :
    ∃ below, c.endpoint path = .ok ⟨url.scheme, url.authority, below, none, none⟩ ∧
      below.text = slashed url.path.text ++ path := by
  -- The base is closed: its last segment is empty, and joining replaces that one.
  obtain ⟨before, hbefore⟩ := closePath_segments list
  have hclosed : url.path.closed = .segments (before ++ [""]) := by
    rw [hlist, ← closePath_eq_closed, hbefore]
  have hpath : c.base.path = .segments (before ++ [""]) := by rw [hbase]; exact hclosed
  have hspecial : Url.isSpecial c.base.scheme := by rw [hbase]; exact hweb.isSpecial
  refine ⟨.segments (before ++ segments), ?_, ?_⟩
  · rw [endpoint, Url.join_of_isPlain hspecial hpath h, hbase]
    rfl
  · rw [Url.text_segments_append before h, ← hclosed, hlist]
    exact congrArg (· ++ path) (text_closeSegments hslash)

/-! ## The control channel -/

/-- A port that does not go without saying stays, since a channel has the same default. -/
private theorem setScheme?_channelScheme (url : Url) (hweb : Url.IsWeb url.scheme)
    {a : Url.Authority}
    (hauthority : url.authority = some a) (hhost : a.host ≠ .domain "")
    (hport : a.port ≠ Url.defaultPort? url.scheme) :
    url.setScheme? (channelScheme url.scheme) =
      some { url with scheme := channelScheme url.scheme } := by
  obtain ⟨scheme, authority, path, query, fragment⟩ := url
  obtain rfl : authority = some a := hauthority
  -- The schemes of channels have the ports of the common ones.
  have hsame : Url.defaultPort? (channelScheme scheme) = Url.defaultPort? scheme := by
    rcases hweb with h | h <;> (obtain rfl : scheme = _ := h) <;> decide
  have hspecial : Url.isSpecial (channelScheme scheme) = Url.isSpecial scheme := by
    rcases hweb with h | h <;> (obtain rfl : scheme = _ := h) <;> decide
  have hkept : a.port ≠ Url.defaultPort? scheme := hport
  simp [Url.setScheme?, Url.hasHost, hspecial, hhost, hsame, hkept]

/-- The control channel is below the base as well, under another scheme. -/
theorem channelUrl_eq_of_base {c : Client} {text : String} {url : Url}
    (hparse : Url.parse text = .ok url) (hweb : Url.IsWeb url.scheme)
    (hbase : c.base = url.closed) :
    ∃ address, c.endpoint channelPath = .ok address ∧
      c.channelUrl = .ok { address with scheme := channelScheme url.scheme } := by
  obtain ⟨list, hlist, hslash⟩ := Url.exists_path_of_parse hparse hweb
  obtain ⟨a, hauthority, hhost, hport⟩ := Url.exists_authority_of_parse hparse hweb
  obtain ⟨below, hurl, -⟩ := endpoint_eq_of_base hbase hweb hlist hslash isPlain_channelPath
  have hscheme := setScheme?_channelScheme ⟨url.scheme, url.authority, below, none, none⟩ hweb
    hauthority hhost hport
  exact ⟨_, hurl, by simp only [channelUrl, hurl, hscheme]⟩

/-- Every address of a client is below the one in its settings, and a slash at the end of that one
    makes no difference. The paths are those under which it asks for the status, sends commands and
    images, and opens the control channel. -/
theorem addresses_below_base {s : Settings} {c : Client} (h : ofSettings s = .ok c) :
    ∃ url, Url.parse s.daemonUrl = .ok url ∧
      (∀ path ∈ apiPaths, ∃ below,
        c.endpoint path = .ok ⟨url.scheme, url.authority, below, none, none⟩ ∧
          below.text = slashed url.path.text ++ path) ∧
      (∀ command, statusPath ∈ apiPaths ∧ commandPath command ∈ apiPaths ∧
        writePath ∈ apiPaths ∧ channelPath ∈ apiPaths) ∧
      (∃ address,
        c.endpoint "kvmd/ws" = .ok address ∧
          c.channelUrl =
            .ok { address with scheme := if url.scheme = "https" then "wss" else "ws" }) ∧
      (url.query = none → url.fragment = none →
        ∀ front blanks : String, Url.IsOpenText front.toList blanks.toList →
          (s.daemonUrl = front ++ blanks →
            ofSettings { s with daemonUrl := front ++ "/" ++ blanks } = .ok c) ∧
          (s.daemonUrl = front ++ "/" ++ blanks →
            ofSettings { s with daemonUrl := front ++ blanks } = .ok c)) := by
  obtain ⟨url, hparse, hweb, hbase⟩ := exists_base_eq h
  refine ⟨url, hparse, fun path hpath => ?_, mem_apiPaths,
    channelUrl_eq_of_base hparse hweb hbase, ?_⟩
  · obtain ⟨list, hlist, hslash⟩ := Url.exists_path_of_parse hparse hweb
    obtain ⟨segments, hplain⟩ := exists_isPlain_of_mem hpath
    exact endpoint_eq_of_base hbase hweb hlist hslash hplain
  · -- Both texts make one base, as the base is closed.
    intro hquery hfragment front blanks hopen
    constructor
    · intro hfront
      rw [hfront] at hparse
      have hweb' : Url.IsWeb url.closed.scheme := hweb
      have hslashed := (Url.parse_slash_iff hopen hweb' ⟨hquery, hfragment⟩).mpr ⟨url, hparse, rfl⟩
      exact ofSettings_of_base h hslashed hweb (by rw [Url.closed_closed, hbase])
    · intro hfront
      rw [hfront] at hparse
      obtain ⟨before, hbefore, hclosed⟩ :=
        (Url.parse_slash_iff hopen hweb ⟨hquery, hfragment⟩).mp hparse
      have hweb' : Url.IsWeb before.scheme := by rw [hclosed] at hweb; exact hweb
      exact ofSettings_of_base h hbefore hweb' (by rw [hbase, hclosed, Url.closed_closed])

/-- A daemon behind a proxy, with a port of its own. -/
theorem addresses_below_base_behind_proxy :
    ∃ c below,
      ofSettings { daemonUrl := "https://operator:pw@pikvm.local:8443/proxy" } = .ok c ∧
        c.channelUrl =
          .ok ⟨"wss", some ⟨⟨"operator", "pw"⟩, .domain "pikvm.local", some 8443⟩, below, none,
            none⟩ ∧
        below.text = "/proxy/kvmd/ws" ∧
        ofSettings { daemonUrl := "https://operator:pw@pikvm.local:8443/proxy/" } = .ok c := by
  have hparse : Url.parse "https://operator:pw@pikvm.local:8443/proxy" =
      .ok ⟨"https", some ⟨⟨"operator", "pw"⟩, .domain "pikvm.local", some 8443⟩,
        .segments ["proxy"], none, none⟩ := by decide +kernel
  have h : ofSettings { daemonUrl := "https://operator:pw@pikvm.local:8443/proxy" } =
      .ok ⟨⟨"https", some ⟨⟨"operator", "pw"⟩, .domain "pikvm.local", some 8443⟩,
        .segments ["proxy", ""], none, none⟩, [], none, 65536⟩ := by decide +kernel
  obtain ⟨url, hurl, hbelow, -, ⟨address, haddress, hchannel⟩, hslash⟩ := addresses_below_base h
  obtain rfl := Except.ok.inj (hparse.symm.trans hurl)
  obtain ⟨below, hendpoint, htext⟩ := hbelow "kvmd/ws" (by decide)
  obtain rfl := Except.ok.inj (hendpoint.symm.trans haddress)
  -- The address does not end in a slash, and there are no blanks behind it.
  have hopen : Url.IsOpenText "https://operator:pw@pikvm.local:8443/proxy".toList "".toList :=
    ⟨⟨"https://operator:pw@pikvm.local:8443/prox".toList, 'y', by decide⟩, nofun⟩
  refine ⟨_, below, h, hchannel, htext.trans (by decide), ?_⟩
  exact (hslash rfl rfl "https://operator:pw@pikvm.local:8443/proxy" "" hopen).1 rfl

end KvmConsole.Daemon.Client
