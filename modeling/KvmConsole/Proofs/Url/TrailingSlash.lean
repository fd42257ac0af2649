import KvmConsole.Proofs.Url.Web
import Mathlib.Data.List.TakeWhile

/-!
# A slash at the end of an address

An address of the web without query and fragment ends with its path, so a slash put behind it
belongs to the path. It opens one more segment, which stays empty, unless the path ends in an empty
segment already: that is so after points, which stand for a slash of their own.

Key results:
* `readPath_concat_slash`: what becomes of the path.
* `afterSlashes_concat_slash_iff`: what becomes of the address after its scheme.
* `parse_slash_iff`: the same for texts, with the blanks around them.
-/

namespace KvmConsole.Url

/-- A text that does not end in a slash. -/
def EndsOpen (s : List Char) : Prop := ∀ c, s.getLast? = some c → ¬isSlash c

/-- A text that ends open is empty or has a last character that is no slash. -/
theorem EndsOpen.eq_nil_or_concat {s : List Char} (h : EndsOpen s) :
    s = [] ∨ ∃ init c, s = init ++ [c] ∧ ¬isSlash c := by
  rcases List.eq_nil_or_concat s with rfl | ⟨init, c, rfl⟩
  · exact .inl rfl
  · rw [List.concat_eq_append] at h ⊢
    exact .inr ⟨init, c, rfl, h c (by simp)⟩

/-- The end of a text that ends open ends open. -/
private theorem EndsOpen.of_suffix {s t : List Char} (h : EndsOpen s) (hsuffix : t <:+ s) :
    EndsOpen t := by
  obtain ⟨before, rfl⟩ := hsuffix
  intro c hc
  exact h c (by simp [List.getLast?_append, hc])

/-! ## Paths -/

/-- The path with an empty segment at its end, which it may have already. -/
def closeSegments (list : List String) : List String :=
  if list.getLast? = some "" then list else list ++ [""]

/-- The path with a slash at its end. -/
def Path.closed : Path → Path
  | .segments list => .segments (closeSegments list)
  | .opaquePath text => .opaquePath text

/-- Segments that end in an empty one are closed. -/
theorem closeSegments_concat_empty (list : List String) :
    closeSegments (list ++ [""]) = list ++ [""] := by
  simp [closeSegments]

/-- Any other segments get an empty one. -/
theorem closeSegments_concat {segment : String} (h : segment ≠ "") (list : List String) :
    closeSegments (list ++ [segment]) = list ++ [segment] ++ [""] := by
  simp [closeSegments, h]

/-- Closing twice is closing once. -/
private theorem closeSegments_closeSegments (list : List String) :
    closeSegments (closeSegments list) = closeSegments list := by
  by_cases h : list.getLast? = some ""
  · simp [closeSegments, h]
  · simp [closeSegments, h]

/-- A separator at the end adds an empty part. -/
private theorem splitAt_concat_separator (separator : Char) (s : List Char) :
    splitAt separator (s ++ [separator]) = splitAt separator s ++ [[]] := by
  rw [splitAt_eq_splitOn, splitAt_eq_splitOn, List.splitOn_append_cons_self, List.splitOn_nil]

/-- A text that does not end in the separator has a last part, and not an empty one. -/
private theorem exists_splitAt_eq_concat {separator c : Char} (hc : c ≠ separator) (s : List Char) :
    ∃ before last, splitAt separator (s ++ [c]) = before ++ [last] ∧ last ≠ [] := by
  induction s with
  | nil => exact ⟨[], [c], by simp [splitAt, hc], List.cons_ne_nil _ _⟩
  | cons d s ih =>
    -- By induction along the text: the last part of the rest is the last part of the whole, unless
    -- there is nothing in front of it.
    obtain ⟨before, last, hparts, hlast⟩ := ih
    rw [List.cons_append, splitAt, hparts]
    -- The first character starts a new part, or belongs to the first one.
    cases before with
    | nil =>
      by_cases hd : d = separator
      · exact ⟨[[]], last, by simp [hd], hlast⟩
      · exact ⟨[], d :: last, by simp [hd], List.cons_ne_nil _ _⟩
    | cons part parts =>
      by_cases hd : d = separator
      · exact ⟨[] :: part :: parts, last, by simp [hd], hlast⟩
      · exact ⟨(d :: part) :: parts, last, by simp [hd], hlast⟩

/-- What is not empty is not encoded as nothing. -/
private theorem encode_ne_empty {spelt : Char → Bool} {s : List Char} (h : s ≠ []) :
    encode spelt s ≠ "" := by
  intro hempty
  have hnil : s.flatMap (encodeChar spelt) = [] := by
    simpa [encode] using congrArg String.toList hempty
  obtain ⟨c, t, rfl⟩ := List.exists_cons_of_ne_nil h
  have hc : encodeChar spelt c = [] := (List.flatMap_eq_nil_iff.mp hnil) c List.mem_cons_self
  rw [encodeChar] at hc
  split at hc
  · cases hc
  · -- Every character has a byte, and every byte is spelt.
    obtain ⟨b, bytes, hbytes⟩ := List.exists_cons_of_ne_nil (String.utf8EncodeChar_ne_nil (c := c))
    rw [hbytes] at hc
    cases hc

/-- The segments after one more part of a path. -/
def afterPart (before : List String) (part : List Char) : List String :=
  let segment := encode inPathSet part
  if isDoubleDot segment then before.dropLast
  else if isSingleDot segment then before
  else before ++ [segment]

/-- Whether a part is made of points that lead somewhere. -/
def isDots (part : List Char) : Bool :=
  isDoubleDot (encode inPathSet part) || isSingleDot (encode inPathSet part)

/-- A path is followed part by part. -/
private theorem followPath_cons (before : List String) (part : List Char)
    (rest : List (List Char)) :
    followPath before (part :: rest) =
      if rest.isEmpty && isDots part then afterPart before part ++ [""]
      else followPath (afterPart before part) rest := rfl

/-- A part without dots is added. -/
private theorem afterPart_of_not_isDots {part : List Char} (h : ¬isDots part)
    (before : List String) :
    afterPart before part = before ++ [encode inPathSet part] := by
  rw [isDots, Bool.or_eq_true, not_or] at h
  simp only [afterPart, if_neg h.1, if_neg h.2]

/-- An empty part at the end adds an empty segment, if there is none. -/
private theorem followPath_concat_nil (before : List String) (parts : List (List Char))
    {last : List Char}
    (hlast : last ≠ []) :
    followPath before (parts ++ [last] ++ [[]]) =
      closeSegments (followPath before (parts ++ [last])) := by
  induction parts generalizing before with
  | nil =>
    have hempty (list : List String) : followPath list [[]] = list ++ [""] := rfl
    rw [List.nil_append, List.singleton_append, followPath_cons before last [[]], hempty,
      followPath_cons before last []]
    -- Points at the end have an empty segment behind them without a slash.
    by_cases hdots : isDots last
    · simp [hdots, closeSegments_concat_empty]
    · rw [afterPart_of_not_isDots hdots]
      simp [hdots, followPath, closeSegments_concat (encode_ne_empty hlast)]
  | cons part parts ih =>
    rw [List.cons_append, List.cons_append, followPath_cons, followPath_cons]
    have hrest : (parts ++ [last]).isEmpty = false := by simp
    have hrest' : (parts ++ [last] ++ [[]]).isEmpty = false := by simp
    simp only [hrest, hrest', Bool.false_and, Bool.false_eq_true, if_false]
    exact ih _

/-- The slash at the front does not depend on what follows. -/
private theorem dropSlash_append {s : List Char} (h : s ≠ []) (after : List Char) :
    dropSlash true (s ++ after) = dropSlash true s ++ after := by
  obtain ⟨c, t, rfl⟩ := List.exists_cons_of_ne_nil h
  rw [List.cons_append]
  unfold dropSlash
  split <;> simp_all

/-- The parts of a path that does not end in a slash, and the empty one behind a slash at its
    end. -/
private theorem exists_splitPath_eq {c : Char} (hc : ¬isSlash c) (s : List Char) :
    ∃ before last, last ≠ [] ∧ splitPath true (s ++ [c]) = before ++ [last] ∧
      splitPath true (s ++ [c] ++ ['/']) = before ++ [last] ++ [[]] := by
  -- The last character is neither kind of slash.
  have hkept : (if c = '\\' then '/' else c) = c := by
    rw [if_neg]
    rintro rfl
    exact hc rfl
  have hslash : c ≠ '/' := by
    rintro rfl
    exact hc rfl
  simp only [splitPath, if_true, List.map_append, List.map_singleton, hkept]
  obtain ⟨before, last, hparts, hlast⟩ :=
    exists_splitAt_eq_concat hslash (s.map fun c => if c = '\\' then '/' else c)
  exact ⟨before, last, hlast, hparts, by
    rw [if_neg (by decide), splitAt_concat_separator, hparts]⟩

/-- A slash at the end of a path that does not end in one closes it. -/
theorem readPath_concat_slash {s : List Char} (hs : EndsOpen s) :
    readPath true (s ++ ['/']) = (readPath true s).closed := by
  have hread (s : List Char) :
      readPath true s = .segments (followPath [] (splitPath true (dropSlash true s))) := by
    simp [readPath]
  rw [hread, hread, Path.closed]
  rcases hs.eq_nil_or_concat with rfl | ⟨init, c, rfl, hc⟩
  · rfl
  · rw [dropSlash_append (by simp)]
    -- The slash at the front is not the last character, so there is one left.
    obtain ⟨rest, hrest⟩ : ∃ rest, dropSlash true (init ++ [c]) = rest ++ [c] := by
      cases init with
      | nil =>
        refine ⟨[], ?_⟩
        rw [List.nil_append]
        unfold dropSlash
        split <;> simp_all [isSlash]
      | cons d init =>
        rw [List.cons_append]
        unfold dropSlash
        split
        · exact ⟨init, by simp_all⟩
        · exact ⟨init, by simp_all⟩
        · exact ⟨d :: init, rfl⟩
    obtain ⟨before, last, hlast, hparts, hparts'⟩ := exists_splitPath_eq hc rest
    rw [hrest, hparts, hparts', followPath_concat_nil [] before hlast]

/-! ## Addresses -/

section Scanning

variable {p : Char → Bool} {c : Char}

/-- A character that is not taken may be added at the end. -/
private theorem takeWhile_concat_of_neg (hc : p c = false) (s : List Char) :
    (s ++ [c]).takeWhile p = s.takeWhile p := by
  rw [List.takeWhile_append]
  split
  · rename_i hall
    rw [List.takeWhile_cons_of_neg (by simp [hc]), List.append_nil]
    exact ((List.takeWhile_prefix p).eq_of_length hall).symm
  · rfl

/-- From a character that is not dropped on, everything is kept. -/
private theorem dropWhile_append_cons_of_neg (hc : p c = false) (s after : List Char) :
    (s ++ c :: after).dropWhile p = s.dropWhile p ++ c :: after := by
  rw [List.dropWhile_append, List.dropWhile_cons_of_neg (by simp [hc])]
  split
  · rename_i hnone
    rw [List.isEmpty_iff.mp hnone, List.nil_append]
  · rfl

end Scanning

/-- A text without the character is taken as a whole. -/
private theorem takeWhile_ne_eq_self {c : Char} {s : List Char} (h : c ∉ s) :
    s.takeWhile (· ≠ c) = s :=
  List.takeWhile_eq_self_iff.mpr fun _ hd => decide_eq_true fun heq => h (heq ▸ hd)

/-- Without their marks there are no query and no fragment. -/
private theorem cut_eq_of_not_mem {s : List Char} (hquery : '?' ∉ s) (hfragment : '#' ∉ s) :
    cut s = ⟨s, none, none⟩ := by
  simp only [cut, takeWhile_ne_eq_self hfragment, takeWhile_ne_eq_self hquery]
  rw [if_neg (by simpa using hquery), if_neg (by simpa using hfragment)]

/-- A text without query and fragment has none of their marks. -/
private theorem not_mem_of_cut {s : List Char} (hquery : (cut s).query = none)
    (hfragment : (cut s).fragment = none) : '?' ∉ s ∧ '#' ∉ s := by
  have hnumber : '#' ∉ s := by
    intro hmem
    simp [cut, hmem] at hfragment
  refine ⟨fun hmem => ?_, hnumber⟩
  simp only [cut, takeWhile_ne_eq_self hnumber] at hquery
  simp [hmem] at hquery

/-- An address without query and fragment. -/
def IsBare (u : Url) : Prop := u.query = none ∧ u.fragment = none

/-- An address with a slash at the end of its path. -/
def closed (u : Url) : Url := { u with path := u.path.closed }

/-- Closing twice is closing once. -/
theorem closed_closed (u : Url) : u.closed.closed = u.closed := by
  have hpath (path : Path) : path.closed.closed = path.closed := by
    cases path with
    | segments list => rw [Path.closed, Path.closed, closeSegments_closeSegments]
    | opaquePath text => rfl
  rw [closed, closed, hpath]

/-- A bare address has no marks behind its authority. -/
private theorem not_mem_of_isBare {scheme : String} (hspecial : isSpecial scheme) {s : List Char}
    {url : Url}
    (h : afterSlashes scheme s = .ok url) (hbare : url.IsBare) :
    '?' ∉ (s.dropWhile fun c => !endsAuthority true c) ∧
      '#' ∉ s.dropWhile fun c => !endsAuthority true c := by
  obtain ⟨authority, -, rfl⟩ := afterSlashes_eq_ok_iff.mp h
  simp only [hspecial] at hbare
  exact not_mem_of_cut (Option.map_eq_none_iff.mp hbare.1) (Option.map_eq_none_iff.mp hbare.2)

/-- An address with a slash at its end, where it has no query and no fragment. -/
private theorem afterSlashes_concat_slash {scheme : String} (hspecial : isSpecial scheme)
    {s : List Char}
    (hs : EndsOpen s)
    (hquery : '?' ∉ s.dropWhile fun c => !endsAuthority true c)
    (hfragment : '#' ∉ s.dropWhile fun c => !endsAuthority true c) :
    afterSlashes scheme (s ++ ['/']) = (afterSlashes scheme s).map closed := by
  -- The slash ends the authority, and what comes before it stays.
  have htake (s : List Char) := takeWhile_concat_of_neg
    (p := fun c => !endsAuthority true c) (c := '/') (by decide) s
  have hdrop (s : List Char) := dropWhile_append_cons_of_neg
    (p := fun c => !endsAuthority true c) (c := '/') (by decide) s []
  unfold afterSlashes
  simp only [hspecial, htake, hdrop]
  cases readAuthority scheme (s.takeWhile fun c => !endsAuthority true c) with
  | error e => rfl
  | ok authority =>
    rw [cut_eq_of_not_mem hquery hfragment,
      cut_eq_of_not_mem (by simpa using hquery) (by simpa using hfragment)]
    simp only [bind, Except.bind, pure, Except.pure, Except.map, finish, closed, Option.map_none,
      readPath_concat_slash (hs.of_suffix (List.dropWhile_suffix _))]

/-- A bare address has a slash at its end if it is a closed one. -/
theorem afterSlashes_concat_slash_iff {scheme : String} (hspecial : isSpecial scheme)
    {s : List Char} (hs : EndsOpen s) {url : Url} (hbare : url.IsBare) :
    afterSlashes scheme (s ++ ['/']) = .ok url ↔
      ∃ before, afterSlashes scheme s = .ok before ∧ url = before.closed := by
  constructor
  · intro h
    obtain ⟨hquery, hfragment⟩ := not_mem_of_isBare hspecial h hbare
    have hdrop := dropWhile_append_cons_of_neg
      (p := fun c => !endsAuthority true c) (c := '/') (by decide) s []
    -- The accepted address has no query and no fragment, so that what was read had neither sign.
    rw [hdrop] at hquery hfragment
    rw [afterSlashes_concat_slash hspecial hs (by simpa using hquery) (by simpa using hfragment)]
      at h
    cases hbefore : afterSlashes scheme s with
    | error e => simp [hbefore, Except.map] at h
    | ok before =>
      rw [hbefore] at h
      exact ⟨before, rfl, (Except.ok.inj h).symm⟩
  · rintro ⟨before, hbefore, rfl⟩
    obtain ⟨hquery, hfragment⟩ := not_mem_of_isBare hspecial hbefore hbare
    rw [afterSlashes_concat_slash hspecial hs hquery hfragment, hbefore]
    rfl

/-- Without a character there is no host. -/
private theorem afterSlashes_nil_ne_ok {scheme : String} (hweb : IsWeb scheme) (url : Url) :
    afterSlashes scheme [] ≠ .ok url := by
  rcases hweb with rfl | rfl <;> nofun

/-- A slash at the end is none of the scheme. -/
private theorem splitScheme_concat_slash (s : List Char) :
    splitScheme (s ++ ['/']) =
      (splitScheme s).map fun found => (found.1, found.2 ++ ['/']) := by
  have htake := takeWhile_concat_of_neg (p := isSchemeChar) (c := '/') (by decide) s
  have hdrop := dropWhile_append_cons_of_neg (p := isSchemeChar) (c := '/') (by decide) s []
  simp only [splitScheme, htake, hdrop]
  cases s.dropWhile isSchemeChar with
  | nil => rfl
  | cons c rest =>
    by_cases hc : c = ':'
    · subst hc
      simp only [List.cons_append]
      split <;> rfl
    · simp [hc]

/-- What follows a scheme is the end of the text. -/
private theorem suffix_of_splitScheme {s rest : List Char} {scheme : String}
    (h : splitScheme s = some (scheme, rest)) : rest <:+ s := by
  unfold splitScheme at h
  dsimp only at h
  split at h
  · rename_i rest' hrest
    split at h
    · obtain ⟨-, rfl⟩ := Prod.mk.inj (Option.some.inj h)
      exact (List.suffix_cons ':' rest').trans (hrest ▸ List.dropWhile_suffix _)
    · cases h
  · cases h

/-! ## Texts -/

/-- Of a text whose last characters are a printable one and blanks, the blanks go. -/
private theorem trim_append {s margin : List Char} {c : Char} (hc : 0x20 < c.toNat)
    (hmargin : ∀ d ∈ margin, d.toNat ≤ 0x20) :
    trim (s ++ c :: margin) =
      (s.dropWhile (·.toNat ≤ 0x20) ++ [c]).filter fun c =>
        !(c = '\t' || c = '\n' || c = '\r') := by
  have hstop : decide (c.toNat ≤ 0x20) = false := by simpa using hc
  have hskip : ∀ d ∈ margin.reverse, decide (d.toNat ≤ 0x20) = true := by simpa using hmargin
  have hfront := dropWhile_append_cons_of_neg (p := (·.toNat ≤ 0x20)) hstop s margin
  simp only [trim, hfront, List.reverse_append, List.reverse_cons, List.append_assoc,
    List.dropWhile_append_of_pos hskip]
  rw [List.singleton_append, List.dropWhile_cons_of_neg (by simp [hstop]), List.reverse_cons,
    List.reverse_reverse]

/-- A text whose last character that counts is no slash, with its blanks around it. -/
structure IsOpenText (front blanks : List Char) : Prop where
  last : ∃ init c, front = init ++ [c] ∧ 0x20 < c.toNat ∧ ¬isSlash c
  blanks : ∀ c ∈ blanks, c.toNat ≤ 0x20

section OpenText

variable {front blanks : List Char} (h : IsOpenText front blanks)
include h

/-- An open text still is one once its blanks are gone. -/
private theorem endsOpen_trim : EndsOpen (trim (front ++ blanks)) := by
  obtain ⟨⟨init, c, rfl, hc, hslash⟩, hblanks⟩ := h
  have hkept : (!(c = '\t' || c = '\n' || c = '\r')) = true := by
    simp only [Bool.not_eq_true', Bool.or_eq_false_iff, decide_eq_false_iff_not]
    refine ⟨⟨?_, ?_⟩, ?_⟩ <;> (rintro rfl; revert hc; decide)
  rw [List.append_assoc, List.singleton_append, trim_append hc hblanks, List.filter_append,
    List.filter_cons_of_pos (a := c) (l := []) hkept, List.filter_nil]
  intro d hd
  rw [List.getLast?_concat, Option.some.injEq] at hd
  exact hd ▸ hslash

/-- A slash before the blanks stays at the end. -/
private theorem trim_slash : trim (front ++ ['/'] ++ blanks) = trim (front ++ blanks) ++ ['/'] := by
  obtain ⟨⟨init, c, rfl, hc, -⟩, hblanks⟩ := h
  have hstop : decide (c.toNat ≤ 0x20) = false := by simpa using hc
  have hfront := dropWhile_append_cons_of_neg (p := (·.toNat ≤ 0x20)) hstop init []
  rw [List.append_assoc _ _ blanks, List.singleton_append, trim_append (by decide) hblanks, hfront,
    List.append_assoc init [c] blanks, List.singleton_append, trim_append hc hblanks,
    List.filter_append]
  rfl

end OpenText

/-- A slash at the end of a text closes the path of the address. -/
theorem parse_slash_iff {front blanks : String} (h : IsOpenText front.toList blanks.toList)
    {url : Url} (hweb : IsWeb url.scheme) (hbare : url.IsBare) :
    parse (front ++ "/" ++ blanks) = .ok url ↔
      ∃ before, parse (front ++ blanks) = .ok before ∧ url = before.closed := by
  have htrim : trim (front ++ "/" ++ blanks).toList = trim (front ++ blanks).toList ++ ['/'] := by
    simpa using trim_slash h
  have hopen : EndsOpen (trim (front ++ blanks).toList) := by
    simpa using endsOpen_trim h
  rw [parse_eq_ok_iff hweb, htrim, splitScheme_concat_slash]
  -- The slashes in front of the host may be all that is left: then there is no address either way.
  have hrest {rest : List Char} (hsuffix : rest <:+ trim (front ++ blanks).toList) :
      afterSlashes url.scheme ((rest ++ ['/']).dropWhile isSlash) = .ok url ↔
        ∃ before, afterSlashes url.scheme (rest.dropWhile isSlash) = .ok before ∧
          url = before.closed := by
    rw [List.dropWhile_append]
    split
    · rename_i hempty
      rw [List.isEmpty_iff.mp hempty]
      constructor
      · exact fun hurl => absurd hurl (afterSlashes_nil_ne_ok hweb url)
      · rintro ⟨before, hbefore, -⟩
        exact absurd hbefore (afterSlashes_nil_ne_ok hweb before)
    · exact afterSlashes_concat_slash_iff hweb.isSpecial
        ((hopen.of_suffix hsuffix).of_suffix (List.dropWhile_suffix _)) hbare
  constructor
  · rintro ⟨rest', hsplit, hurl⟩
    obtain ⟨⟨scheme, rest⟩, hfound, heq⟩ := Option.map_eq_some_iff.mp hsplit
    obtain ⟨rfl, rfl⟩ := Prod.mk.inj heq
    obtain ⟨before, hbefore, hclosed⟩ := (hrest (suffix_of_splitScheme hfound)).mp hurl
    have hscheme : before.scheme = url.scheme := by rw [hclosed]; rfl
    refine ⟨before, (parse_eq_ok_iff (hscheme ▸ hweb)).mpr ⟨rest, ?_, ?_⟩, hclosed⟩
    · rw [hscheme]
      exact hfound
    · rw [hscheme]
      exact hbefore
  · rintro ⟨before, hbefore, hclosed⟩
    have hscheme : before.scheme = url.scheme := by rw [hclosed]; rfl
    obtain ⟨rest, hfound, hafter⟩ := (parse_eq_ok_iff (hscheme ▸ hweb)).mp hbefore
    rw [hscheme] at hfound hafter
    refine ⟨rest ++ ['/'], by rw [hfound]; rfl, ?_⟩
    exact (hrest (suffix_of_splitScheme hfound)).mpr ⟨before, hafter, hclosed⟩

end KvmConsole.Url
