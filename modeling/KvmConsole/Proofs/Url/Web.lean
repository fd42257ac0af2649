import KvmConsole.Proofs.Url.Below

/-!
# Addresses of the web

An address whose scheme is `http` or `https` has been read in one way only: after the scheme and any
slashes comes a host, and the path after it is made of segments. It can be turned into the address
of a control channel, which differs in the scheme alone.

Key results:
* `parse_eq_ok_iff`: how such an address is read.
* `exists_authority_of_parse`: it has a host, and no port that goes without saying.
* `exists_path_of_parse`: its path is made of segments, and none of them has a slash in it.
-/

namespace KvmConsole.Url

/-- The schemes under which the daemon can be reached. -/
def IsWeb (scheme : String) : Prop := scheme = "http" ∨ scheme = "https"

/-- The schemes of the web are common ones. -/
theorem IsWeb.isSpecial {scheme : String} (h : IsWeb scheme) : isSpecial scheme := by
  rcases h with rfl | rfl <;> decide

/-! ## The way in which they are read -/

/-- Behind the slashes there are an authority, a path, a query and a fragment. -/
theorem afterSlashes_eq_ok_iff {scheme : String} {s : List Char} {url : Url} :
    afterSlashes scheme s = .ok url ↔
      ∃ authority,
        readAuthority scheme (s.takeWhile fun c => !endsAuthority (isSpecial scheme) c) =
          .ok authority ∧
        let pieces := cut (s.dropWhile fun c => !endsAuthority (isSpecial scheme) c)
        url = finish ⟨scheme, authority, readPath (isSpecial scheme) pieces.path, none, none⟩
          pieces := by
  unfold afterSlashes
  cases hauthority :
      readAuthority scheme (s.takeWhile fun c => !endsAuthority (isSpecial scheme) c) with
  | error e => simp [hauthority, bind, Except.bind]
  | ok authority => simp [hauthority, bind, Except.bind, pure, Except.pure, eq_comm]

/-- An address keeps its scheme. -/
private theorem scheme_of_afterSlashes {scheme : String} {s : List Char} {url : Url}
    (h : afterSlashes scheme s = .ok url) : url.scheme = scheme := by
  obtain ⟨authority, -, rfl⟩ := afterSlashes_eq_ok_iff.mp h
  rfl

/-- The address of a file keeps its scheme. -/
private theorem scheme_of_readFile {s : List Char} {url : Url} (h : readFile s = .ok url) :
    url.scheme = "file" := by
  unfold readFile at h
  dsimp only at h
  split at h
  · rw [← Except.ok.inj h]
    rfl
  · cases hhost : readFileHost ((s.drop 2).takeWhile fun c => !endsAuthority true c) with
    | error e => simp [hhost, bind, Except.bind] at h
    | ok authority =>
      simp only [hhost, bind, Except.bind] at h
      rw [← Except.ok.inj h]
      rfl

/-- What comes after the scheme and all slashes is a host, and then the path. -/
theorem parse_eq_ok_iff {text : String} {url : Url} (hweb : IsWeb url.scheme) :
    parse text = .ok url ↔
      ∃ rest, splitScheme (trim text.toList) = some (url.scheme, rest) ∧
        afterSlashes url.scheme (rest.dropWhile isSlash) = .ok url := by
  have hfile : url.scheme ≠ "file" := by
    rcases hweb with h | h <;> rw [h] <;> decide
  constructor
  · intro h
    unfold parse read at h
    dsimp only at h
    split at h
    · rename_i scheme rest hsplit
      -- An address of the web goes the way of the common schemes.
      unfold readWithScheme at h
      split at h
      · exact absurd (scheme_of_readFile h) hfile
      split at h
      · obtain rfl := scheme_of_afterSlashes h
        exact ⟨rest, hsplit, h⟩
      · -- An address of another scheme keeps it.
        rename_i hspecial
        have hscheme : url.scheme = scheme := by
          split at h
          · exact scheme_of_afterSlashes h
          · rw [← Except.ok.inj h]
            rfl
        rw [← hscheme] at hspecial
        exact absurd hweb.isSpecial hspecial
    · cases h
  · rintro ⟨rest, hsplit, hafter⟩
    unfold parse read
    simp only [hsplit, readWithScheme, if_neg hfile, hweb.isSpecial, if_true]
    exact hafter

/-! ## Hosts and ports -/

/-- A host that is read is not empty. -/
private theorem readHost_ne_empty {s : List Char} {host : Host} (h : readHost true s = .ok host) :
    host ≠ .domain "" := by
  unfold readHost at h
  split at h
  · unfold readBracketed at h
    split at h
    · split at h
      · rw [← Except.ok.inj h]
        nofun
      · cases h
    · cases h
  · simp only [if_true] at h
    unfold readDomain at h
    split at h
    · cases h
    · rename_i domain _
      split at h
      · cases h
      · rename_i hempty
        split at h
        · split at h
          · rw [← Except.ok.inj h]
            nofun
          · cases h
        · rw [← Except.ok.inj h]
          rintro heq
          -- Only the text without a character is empty.
          have hdomain : domain = [] := by simpa using congrArg String.toList (Host.domain.inj heq)
          exact hempty (by simp [hdomain])

/-- A host is there, and a port only if it is not the default one. -/
private theorem exists_of_readHostPort {scheme : String} (hspecial : isSpecial scheme)
    (hdefault : defaultPort? scheme ≠ none) {s : List Char} {host : Option Host}
    {port : Option UInt16} (h : readHostPort scheme s = .ok (host, port)) :
    ∃ name, host = some name ∧ name ≠ .domain "" ∧ port ≠ defaultPort? scheme := by
  unfold readHostPort at h
  dsimp only at h
  split at h
  · simp [hspecial] at h
  · rw [hspecial] at h
    -- A host is required, and the port is dropped if it is the usual one.
    cases hhost : readHost true (s.take (hostLength false s)) with
    | error e => simp [hhost, bind, Except.bind] at h
    | ok name =>
      cases hport : readPort ((s.drop (hostLength false s)).drop 1) with
      | error e => simp only [hhost, hport, bind, Except.bind, reduceCtorEq] at h
      | ok written =>
        simp only [hhost, hport, bind, Except.bind, pure, Except.pure] at h
        obtain ⟨rfl, rfl⟩ := Prod.mk.inj (Except.ok.inj h)
        refine ⟨name, rfl, readHost_ne_empty hhost, ?_⟩
        split
        · exact hdefault.symm
        · assumption

/-- An address of a common scheme has a host, and a port only if it is an unusual one. -/
private theorem exists_of_readAuthority {scheme : String} (hspecial : isSpecial scheme)
    (hdefault : defaultPort? scheme ≠ none) {s : List Char} {authority : Option Authority}
    (h : readAuthority scheme s = .ok authority) :
    ∃ a, authority = some a ∧ a.host ≠ .domain "" ∧ a.port ≠ defaultPort? scheme := by
  unfold readAuthority at h
  split at h
  rename_i userinfo s _
  -- The user information does not matter.
  cases hread : readHostPort scheme s with
  | error e => simp only [hread, bind, Except.bind, reduceCtorEq] at h
  | ok found =>
    obtain ⟨host, port⟩ := found
    obtain ⟨name, rfl, hname, hport⟩ := exists_of_readHostPort hspecial hdefault hread
    simp only [hread, bind, Except.bind, pure, Except.pure] at h
    exact ⟨⟨userinfo, name, port⟩, (Except.ok.inj h).symm, hname, hport⟩

/-- An address of the web has a host, and no port that goes without saying. -/
theorem exists_authority_of_parse {text : String} {url : Url} (h : parse text = .ok url)
    (hweb : IsWeb url.scheme) :
    ∃ a, url.authority = some a ∧ a.host ≠ .domain "" ∧ a.port ≠ defaultPort? url.scheme := by
  have hdefault : defaultPort? url.scheme ≠ none := by
    rcases hweb with h | h <;> rw [h] <;> decide
  obtain ⟨rest, -, hafter⟩ := (parse_eq_ok_iff hweb).mp h
  obtain ⟨authority, hauthority, hurl⟩ := afterSlashes_eq_ok_iff.mp hafter
  have hkept : url.authority = authority := by rw [hurl]; rfl
  rw [hkept]
  exact exists_of_readAuthority hweb.isSpecial hdefault hauthority

/-! ## Paths -/

/-- Texts are split as lists are. -/
theorem splitAt_eq_splitOn (separator : Char) (s : List Char) :
    splitAt separator s = s.splitOn separator := by
  induction s with
  | nil => rfl
  | cons c s ih =>
    rw [splitAt, ih, List.splitOn_cons_eq_if_modifyHead]
    cases hparts : s.splitOn separator with
    | nil => exact absurd hparts (List.splitOn_ne_nil separator s)
    | cons part parts =>
      by_cases hc : c = separator
      · simp [hc]
      · simp [hc]

/-- No part has the separator in it. -/
private theorem not_mem_of_mem_splitAt {separator : Char} {s part : List Char}
    (h : part ∈ splitAt separator s) : separator ∉ part := by
  induction s generalizing part with
  | nil =>
    rw [splitAt, List.mem_singleton] at h
    simp [h]
  | cons c s ih =>
    rw [splitAt] at h
    split at h
    · rename_i hnil
      rw [splitAt_eq_splitOn] at hnil
      exact absurd hnil (List.splitOn_ne_nil separator s)
    · -- The character is a separator and begins a part, or it belongs to the first one.
      rename_i first others hparts
      rw [hparts] at ih
      split at h
      · rcases List.mem_cons.mp h with rfl | h
        · exact List.not_mem_nil
        · exact ih h
      · rename_i hc
        rcases List.mem_cons.mp h with rfl | h
        · rw [List.mem_cons, not_or]
          exact ⟨Ne.symm hc, ih List.mem_cons_self⟩
        · exact ih (List.mem_cons_of_mem _ h)

/-- An encoded byte has no slash in it. -/
private theorem slash_notMem_encodeByte (b : UInt8) : '/' ∉ encodeByte b := by
  -- A digit in capitals is a number or one of six letters.
  have hdigit : ∀ n : Fin 16, hexDigit n.val ≠ '/' := by decide
  have hlt := b.toNat_lt
  simp only [encodeByte, List.mem_cons, List.not_mem_nil, or_false, not_or]
  exact ⟨by decide, (hdigit ⟨b.toNat / 16, by omega⟩).symm,
    (hdigit ⟨b.toNat % 16, by omega⟩).symm⟩

/-- Encoding spells no slash. -/
private theorem slash_notMem_encode {spelt : Char → Bool} {s : List Char} (h : '/' ∉ s) :
    '/' ∉ (encode spelt s).toList := by
  rw [encode, String.toList_ofList, List.mem_flatMap]
  rintro ⟨c, hc, hmem⟩
  rw [encodeChar] at hmem
  split at hmem
  · rw [List.mem_singleton] at hmem
    exact h (hmem ▸ hc)
  · obtain ⟨b, -, hb⟩ := List.mem_flatMap.mp hmem
    exact slash_notMem_encodeByte b hb

/-- No segment of a path has a slash in it. -/
private theorem slash_notMem_followPath {parts : List (List Char)}
    (hparts : ∀ part ∈ parts, '/' ∉ part)
    {before : List String} (hbefore : ∀ segment ∈ before, '/' ∉ segment.toList) :
    ∀ segment ∈ followPath before parts, '/' ∉ segment.toList := by
  induction parts generalizing before with
  | nil => exact hbefore
  | cons part rest ih =>
    obtain ⟨hpart, hrest⟩ := List.forall_mem_cons.mp hparts
    rw [followPath]
    -- Going back, staying and going on all leave segments without a slash.
    generalize hhere : (if isDoubleDot (encode inPathSet part) then before.dropLast
      else if isSingleDot (encode inPathSet part) then before
      else before ++ [encode inPathSet part]) = here
    have hkept : ∀ segment ∈ here, '/' ∉ segment.toList := by
      rw [← hhere]
      split
      · exact fun segment hs => hbefore segment (List.dropLast_subset before hs)
      split
      · exact hbefore
      · intro segment hs
        rcases List.mem_append.mp hs with hs | hs
        · exact hbefore segment hs
        · rw [List.mem_singleton.mp hs]
          exact slash_notMem_encode hpart
    split
    · intro segment hs
      rcases List.mem_append.mp hs with hs | hs
      · exact hkept segment hs
      · rw [List.mem_singleton.mp hs]
        decide
    · exact ih hrest hkept

/-- No segment of a path that has been read has a slash in it. -/
private theorem slash_notMem_of_readPath {special : Bool} {s : List Char} {list : List String}
    (h : readPath special s = .segments list) : ∀ segment ∈ list, '/' ∉ segment.toList := by
  unfold readPath at h
  split at h
  · rw [← Path.segments.inj h]
    nofun
  · rw [← Path.segments.inj h]
    exact slash_notMem_followPath (fun part hpart => not_mem_of_mem_splitAt hpart) nofun

/-- The path of an address of the web is made of segments, and none of them has a slash in it. -/
theorem exists_path_of_parse {text : String} {url : Url} (h : parse text = .ok url)
    (hweb : IsWeb url.scheme) :
    ∃ list, url.path = .segments list ∧ ∀ segment ∈ list, '/' ∉ segment.toList := by
  obtain ⟨rest, -, hafter⟩ := (parse_eq_ok_iff hweb).mp h
  obtain ⟨authority, -, hurl⟩ := afterSlashes_eq_ok_iff.mp hafter
  obtain ⟨list, hlist⟩ := path_of_afterSlashes hafter
  have hread : url.path = _ := congrArg Url.path hurl
  exact ⟨list, hlist, slash_notMem_of_readPath (hread.symm.trans hlist)⟩

end KvmConsole.Url
