import KvmConsole.Url.Parse

/-!
# Addresses below a base

A base whose path ends in a slash, joined with the plain names of some segments, gives the address
with these segments below it: nothing else of the base changes, and its query and fragment go.

Key results:
* `path_of_parse`: an address of a common scheme has a path of segments.
* `join_of_isPlain`: where a plain relative address leads.
-/

namespace KvmConsole.Url

/-! ## Paths of common schemes -/

/-- A query and a fragment do not change the path. -/
private theorem path_finish (u : Url) (p : Pieces) : (finish u p).path = u.path := rfl

/-- A path that is read is one of segments. -/
private theorem exists_readPath_eq (special : Bool) (s : List Char) :
    ∃ list, readPath special s = .segments list := by
  unfold readPath
  split
  · exact ⟨_, rfl⟩
  · exact ⟨_, rfl⟩

/-- Behind an authority there is a path of segments. -/
theorem path_of_afterSlashes {scheme : String} {s : List Char} {url : Url}
    (h : afterSlashes scheme s = .ok url) : ∃ list, url.path = .segments list := by
  unfold afterSlashes at h
  cases hauthority :
      readAuthority scheme (s.takeWhile fun c => !endsAuthority (isSpecial scheme) c) with
  | error e => simp [hauthority, bind, Except.bind] at h
  | ok authority =>
    simp only [hauthority, bind, Except.bind, pure, Except.pure, Except.ok.injEq] at h
    rw [← h, path_finish]
    exact exists_readPath_eq _ _

/-- The address of a file has a path of segments. -/
private theorem path_of_readFile {s : List Char} {url : Url} (h : readFile s = .ok url) :
    ∃ list, url.path = .segments list := by
  unfold readFile at h
  dsimp only at h
  split at h
  · simp only [pure, Except.pure, Except.ok.injEq] at h
    rw [← h, path_finish]
    exact exists_readPath_eq _ _
  · -- Behind a host there is a path all the same.
    cases hhost : readFileHost ((s.drop 2).takeWhile fun c => !endsAuthority true c) with
    | error e => simp [hhost, bind, Except.bind] at h
    | ok authority =>
      simp only [hhost, bind, Except.bind, pure, Except.pure, Except.ok.injEq] at h
      rw [← h, path_finish]
      exact exists_readPath_eq _ _

/-- An address of a common scheme has a path of segments. -/
theorem path_of_parse {text : String} {url : Url} (h : parse text = .ok url)
    (hspecial : isSpecial url.scheme) : ∃ list, url.path = .segments list := by
  unfold parse read at h
  dsimp only at h
  split at h
  · rename_i scheme rest _
    -- There are three ways behind the scheme: files, common schemes, and others.
    unfold readWithScheme at h
    split at h
    · exact path_of_readFile h
    · split at h
      · exact path_of_afterSlashes h
      · rename_i hscheme
        split at h
        · exact path_of_afterSlashes h
        · -- An address without a host keeps its scheme, which is not a common one.
          rw [Except.ok.injEq] at h
          rw [← h] at hspecial
          exact absurd hspecial hscheme
  · cases h

/-! ## Plain relative addresses -/

/-- A relative address that spells out the names of some segments, with nothing encoded, no query
    and no fragment. -/
structure IsPlain (text : String) (segments : List String) : Prop where
  untrimmed : trim text.toList = text.toList
  noScheme : splitScheme text.toList = none
  noSlash : text.toList.head?.any fun c => !isSlash c && c ≠ '?' && c ≠ '#'
  uncut : (cut text.toList).path = text.toList
  noQuery : (cut text.toList).query = none
  noFragment : (cut text.toList).fragment = none
  segments_eq : (splitPath true text.toList).map (encode inPathSet) = segments
  noDots : ∀ segment ∈ segments, !isDoubleDot segment && !isSingleDot segment
  text_eq : String.join (segments.map ("/" ++ ·)) = "/" ++ text

/-- Segments without dots are added to the path. -/
private theorem followPath_eq_append (before : List String) (parts : List (List Char))
    (h : ∀ segment ∈ parts.map (encode inPathSet),
      !isDoubleDot segment && !isSingleDot segment) :
    followPath before parts = before ++ parts.map (encode inPathSet) := by
  induction parts generalizing before with
  | nil => simp [followPath]
  | cons part rest ih =>
    rw [List.map_cons, List.forall_mem_cons, Bool.and_eq_true, Bool.not_eq_true',
      Bool.not_eq_true'] at h
    obtain ⟨⟨hdouble, hsingle⟩, hrest⟩ := h
    simp only [followPath, hdouble, hsingle, Bool.or_self, Bool.and_false, Bool.false_eq_true,
      if_false]
    rw [ih _ hrest, List.map_cons, List.append_assoc, List.singleton_append]

/-- The reading of a relative address that starts with the name of a segment. -/
private theorem readRelative_eq {base : Url} {s : List Char}
    (hs : s.head?.any fun c => !isSlash c && c ≠ '?' && c ≠ '#') {list : List String}
    (hpath : base.path = .segments list) :
    readRelative base s =
      let segments := followPath list.dropLast (splitPath (isSpecial base.scheme) (cut s).path)
      .ok (finish { base with path := .segments segments } (cut s)) := by
  cases s with
  | nil => cases hs
  | cons c rest =>
    -- The first character makes the reference one to a path.
    simp only [List.head?_cons, Option.any_some, Bool.and_eq_true, Bool.not_eq_true',
      decide_eq_true_eq] at hs
    obtain ⟨⟨hslash, hquery⟩, hfragment⟩ := hs
    unfold readRelative
    split
    · rename_i heq
      cases heq
    -- A query or a fragment alone would start with its mark.
    · rename_i heq
      cases heq
      exact absurd rfl hquery
    · rename_i heq
      cases heq
      exact absurd rfl hfragment
    · rename_i heq
      cases heq
      simp only [hslash, hpath, Bool.false_eq_true, if_false]

/-- A plain relative address leads below a base whose path ends in a slash. -/
theorem join_of_isPlain {base : Url} {before : List String} {text : String}
    {segments : List String} (hspecial : isSpecial base.scheme)
    (hpath : base.path = .segments (before ++ [""])) (h : IsPlain text segments) :
    base.join text = .ok { base with
      path := .segments (before ++ segments), query := none, fragment := none } := by
  -- None of the segments is a dot segment, so they lead downwards only.
  have hfollow : followPath before (splitPath true text.toList) = before ++ segments := by
    rw [followPath_eq_append, h.segments_eq]
    rw [h.segments_eq]
    exact h.noDots
  simp only [join, read, h.untrimmed, h.noScheme, hpath]
  rw [readRelative_eq h.noSlash hpath, h.uncut, hspecial, List.dropLast_concat, hfollow]
  simp only [finish, h.noQuery, h.noFragment, Option.map_none]

/-- The path of an address below a base is that of the base and the relative address. -/
theorem text_segments_append (before : List String) {text : String} {segments : List String}
    (h : IsPlain text segments) :
    (Path.segments (before ++ segments)).text = (Path.segments (before ++ [""])).text ++ text := by
  have hslash : String.join (List.map ("/" ++ ·) [""]) = "/" := by decide
  simp only [Path.text, List.map_append, String.join_append, hslash, h.text_eq,
    String.append_assoc]

end KvmConsole.Url
