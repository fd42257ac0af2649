import KvmConsole.CommandLine.Arguments
import Mathlib.Data.List.TakeDrop
import Mathlib.Data.List.TakeWhile
import Mathlib.Tactic.SplitIfs

/-!
# Options on the command line

`Names` says what an option of the program looks like, and `Spells` how options and their values are
written one behind the other. The words in front of the command of a program that runs spell what it
has been given, and they do so in one way only.

Key results:
* `scan_names`, `scan_cons_cases`: what one word does, and what it can be.
* `exists_spells`, `given_of_spells`: the words in front of a command, from both sides.
* `Arguments.exists_gives`, `Arguments.holds_of_gives`: what arguments hold.
-/

namespace KvmConsole.CommandLine

/-! ## Words -/

/-- A word without an equals sign is all name. -/
private theorem span_of_not_mem {s : List Char} (h : '=' ∉ s) : s.span (· ≠ '=') = (s, []) := by
  have hall : ∀ c ∈ s, decide (c ≠ '=') = true :=
    fun c hc => decide_eq_true fun heq => h (heq ▸ hc)
  rw [List.span_eq_takeWhile_dropWhile, List.takeWhile_eq_self_iff.mpr hall,
    List.dropWhile_eq_nil_iff.mpr hall]

/-- A name ends at the first equals sign. -/
private theorem span_append {name : List Char} (h : '=' ∉ name) (value : List Char) :
    (name ++ '=' :: value).span (· ≠ '=') = (name, '=' :: value) := by
  have hall : ∀ c ∈ name, decide (c ≠ '=') = true :=
    fun c hc => decide_eq_true fun heq => h (heq ▸ hc)
  rw [List.span_eq_takeWhile_dropWhile, List.takeWhile_append_of_pos hall,
    List.dropWhile_append_of_pos hall]
  simp

namespace Form

variable {word name value : String} {letter : Char} {rest : List Char}

/-- Two dashes and a name are a long option. -/
private theorem ofWord_long (hname : name ≠ "") (h : '=' ∉ name.toList) :
    ofWord ("--" ++ name) = .long name none := by
  obtain ⟨c, cs, hcs⟩ : ∃ c cs, name.toList = c :: cs := by
    cases hs : name.toList with
    | nil => exact absurd (String.toList_injective hs) hname
    | cons c cs => exact ⟨c, cs, rfl⟩
  have hword : ("--" ++ name).toList = '-' :: '-' :: c :: cs := by
    rw [String.toList_append, hcs]
    rfl
  have hspan := span_of_not_mem h
  rw [hcs] at hspan
  simp only [ofWord, hword, hspan]
  rw [← hcs, String.ofList_toList]

/-- The value of a long option can stand behind an equals sign. -/
private theorem ofWord_long_value (h : '=' ∉ name.toList) (value : String) :
    ofWord ("--" ++ name ++ "=" ++ value) = .long name (some value) := by
  have hword : ("--" ++ name ++ "=" ++ value).toList =
      '-' :: '-' :: (name.toList ++ '=' :: value.toList) := by
    simp
  have hspan := span_append h value.toList
  cases hs : name.toList ++ '=' :: value.toList with
  | nil => simp at hs
  | cons c cs =>
    rw [hs] at hword hspan
    simp only [ofWord, hword, hspan, String.ofList_toList]

/-- A dash and a letter are a short option. -/
private theorem ofWord_short (h : letter ≠ '-') (rest : List Char) :
    ofWord (String.ofList ('-' :: letter :: rest)) = .short letter rest := by
  simp [ofWord, h]

/-- A long option is written in one way with its value and in one way without. -/
private theorem eq_of_ofWord_long {value : Option String} (h : ofWord word = .long name value) :
    word = value.elim ("--" ++ name) fun value => "--" ++ name ++ "=" ++ value := by
  apply String.toList_injective
  unfold ofWord at h
  split at h
  · cases h
  · rename_i rest _ hword
    -- The first equals sign, if there is one, is where the value begins.
    by_cases hmem : '=' ∈ rest
    · obtain ⟨before, after, rfl, hbefore⟩ := List.eq_append_cons_of_mem hmem
      rw [span_append hbefore] at h
      obtain ⟨hname, hvalue⟩ := Form.long.inj h
      rw [hword, ← hname, ← hvalue]
      simp
    · rw [span_of_not_mem hmem] at h
      obtain ⟨hname, hvalue⟩ := Form.long.inj h
      rw [hword, ← hname, ← hvalue]
      simp
  · cases h
  · cases h

/-- A short option is written in one way. -/
private theorem eq_of_ofWord_short (h : ofWord word = .short letter rest) :
    word = String.ofList ('-' :: letter :: rest) := by
  apply String.toList_injective
  unfold ofWord at h
  split at h
  · cases h
  · split at h <;> cases h
  · rename_i letter' rest' _ _ hword
    obtain ⟨hletter, hrest⟩ := Form.short.inj h
    rw [hword, hletter, hrest, String.toList_ofList]
  · cases h

end Form

/-! ## Options of the program -/

/-- A word that is an option of the program, and the value in the same word, if there is one. -/
inductive Names : String → Slot → Option String → Prop
  | long {name : String} {slot : Slot} :
    Level.program.valued.lookup name = some slot → Names ("--" ++ name) slot none
  | longValue {name : String} {slot : Slot} (value : String) :
    Level.program.valued.lookup name = some slot →
      Names ("--" ++ name ++ "=" ++ value) slot (some value)
  | flag {name : String} {slot : Slot} :
    Level.program.flags.lookup name = some slot → Names ("--" ++ name) slot (some "")
  | short {letter : Char} {slot : Slot} :
    Level.program.shorts.lookup letter = some slot →
      Names (String.ofList ['-', letter]) slot none
  | shortValue {letter c : Char} {slot : Slot} (value : List Char) :
    Level.program.shorts.lookup letter = some slot → c ≠ '=' →
      Names (String.ofList ('-' :: letter :: c :: value)) slot (some (String.ofList (c :: value)))
  | shortEquals {letter : Char} {slot : Slot} (value : List Char) :
    Level.program.shorts.lookup letter = some slot →
      Names (String.ofList ('-' :: letter :: '=' :: value)) slot (some (String.ofList value))

/-- How options of the program are written: a value stands in the word of its option or behind it,
    where it does not look like an option. -/
inductive Spells : List String → List (Slot × String) → Prop
  | nil : Spells [] []
  | joined {word value : String} {slot : Slot} {words : List String}
      {given : List (Slot × String)} :
    Names word slot (some value) → Spells words given →
      Spells (word :: words) ((slot, value) :: given)
  | apart {word value : String} {slot : Slot} {words : List String}
      {given : List (Slot × String)} :
    Names word slot none → Form.ofWord value = .plain → Spells words given →
      Spells (word :: value :: words) ((slot, value) :: given)

/-- The options in front of the command, with their values. -/
def Gives (words : List String) (given : List (Slot × String)) : Prop :=
  ∃ front name command tail, words = front ++ name :: tail ∧
    Level.program.commands.lookup name = some command ∧ Spells front given

/-! ## Reading one word -/

/-- What is looked up in a list of entries is one of them. -/
private theorem mem_of_lookup_eq_some {α β : Type} [BEq α] [LawfulBEq α] {entries : List (α × β)}
    {key : α}
    {value : β} (h : entries.lookup key = some value) : (key, value) ∈ entries := by
  obtain ⟨before, after, rfl, -⟩ := List.lookup_eq_some_iff.mp h
  simp

/-- A long name can be told from the value behind it. -/
private theorem long_name_ok {name : String} {slot : Slot}
    (h : Level.program.valued.lookup name = some slot ∨
      Level.program.flags.lookup name = some slot) : name ≠ "" ∧ '=' ∉ name.toList := by
  have hall : ∀ entry ∈ Level.program.valued ++ Level.program.flags,
      entry.1 ≠ "" ∧ '=' ∉ entry.1.toList := by
    decide
  refine hall (name, slot) (List.mem_append.mpr ?_)
  exact h.imp mem_of_lookup_eq_some mem_of_lookup_eq_some

/-- No short name makes a long one of its dash. -/
private theorem short_name_ok {letter : Char} {slot : Slot}
    (h : Level.program.shorts.lookup letter = some slot) : letter ≠ '-' := by
  have hall : ∀ entry ∈ Level.program.shorts, entry.1 ≠ '-' := by decide
  exact hall (letter, slot) (mem_of_lookup_eq_some h)

/-- No flag shares its name with an option that takes a value. -/
private theorem valued_of_flag {name : String} {slot : Slot}
    (h : Level.program.flags.lookup name = some slot) :
    Level.program.valued.lookup name = none := by
  have hall : ∀ entry ∈ Level.program.flags, Level.program.valued.lookup entry.1 = none := by
    decide
  exact hall (name, slot) (mem_of_lookup_eq_some h)

/-- No command looks like an option. -/
private theorem plain_of_command {name : String} {command : CommandName}
    (h : Level.program.commands.lookup name = some command) : Form.ofWord name = .plain := by
  have hall : ∀ entry ∈ Level.program.commands, Form.ofWord entry.1 = .plain := by decide
  exact hall (name, command) (mem_of_lookup_eq_some h)

variable {r last : Reading} {word : String} {words : List String} {slot : Slot}
  {value : Option String}

/-- What follows the letter of a short option is its value. -/
private theorem short_value {letter c : Char}
    (hslot : Level.program.shorts.lookup letter = some slot)
    (hc : c ≠ '=') (r : Reading) (value : List Char) :
    r.short Level.program letter (c :: value) =
      r.option slot (some (String.ofList (c :: value))) := by
  unfold Reading.short
  rw [hslot]
  split <;> simp_all

/-- What reading goes on with behind an option. -/
theorem scan_names (h : Names word slot value) (r : Reading) (words : List String) :
    Level.program.scan r (word :: words) =
      (r.option slot value).bind fun r => Level.program.scan r words := by
  -- By the way in which the option is written, each of which is a branch of the scanner.
  cases h with
  | long hslot =>
    obtain ⟨hname, heq⟩ := long_name_ok (.inl hslot)
    simp only [Level.scan, Form.ofWord_long hname heq, Reading.long, hslot]
    rfl
  | longValue value hslot =>
    obtain ⟨hname, heq⟩ := long_name_ok (.inl hslot)
    simp only [Level.scan, Form.ofWord_long_value heq, Reading.long, hslot]
    rfl
  | flag hslot =>
    obtain ⟨hname, heq⟩ := long_name_ok (.inr hslot)
    simp only [Level.scan, Form.ofWord_long hname heq, Reading.long, valued_of_flag hslot, hslot]
    rfl
  | short hslot =>
    simp only [Level.scan, Form.ofWord_short (short_name_ok hslot), Reading.short, hslot]
    rfl
  | shortValue value hslot hc =>
    simp only [Level.scan, Form.ofWord_short (short_name_ok hslot), short_value hslot hc]
    rfl
  | shortEquals value hslot =>
    simp only [Level.scan, Form.ofWord_short (short_name_ok hslot), Reading.short, hslot]
    rfl

/-- A computation of two steps that ends well has ended well in both. -/
private theorem ok_of_bind {ε α β : Type} {x : Except ε α} {f : α → Except ε β} {b : β}
    (h : x >>= f = .ok b) : ∃ a, x = .ok a ∧ f a = .ok b := by
  cases x with
  | error e => cases h
  | ok a => exact ⟨a, rfl, h⟩

/-- Asking for help or for the version ends the reading. -/
private theorem ask_ne_ok (stop : Stop) (s : Reading) : r.ask stop ≠ .ok s := by
  unfold Reading.ask
  cases r.settle <;> exact fun h => nomatch h

/-- A long option that is read on from is one of the program. -/
private theorem names_of_long {name : String} {s : Reading}
    (hword : Form.ofWord word = .long name value)
    (h : r.long Level.program name value = .ok s) :
    ∃ slot value, Names word slot value ∧ r.option slot value = .ok s := by
  rw [Form.eq_of_ofWord_long hword]
  unfold Reading.long at h
  cases hvalued : Level.program.valued.lookup name with
  | some slot =>
    rw [hvalued] at h
    refine ⟨slot, value, ?_, h⟩
    cases value with
    | none => exact .long hvalued
    | some value => exact .longValue value hvalued
  | none =>
    rw [hvalued] at h
    cases hflag : Level.program.flags.lookup name <;> rw [hflag] at h <;> cases value
    -- A flag takes no value, and every other name is refused or asks for help.
    case some.none slot => exact ⟨slot, some "", .flag hflag, h⟩
    case none.none =>
      dsimp only at h
      split_ifs at h <;> exact absurd h (ask_ne_ok _ _)
    all_goals cases h

/-- A short option that is read on from is one of the program. -/
private theorem names_of_short {letter : Char} {more : List Char} {s : Reading}
    (hword : Form.ofWord word = .short letter more)
    (h : r.short Level.program letter more = .ok s) :
    ∃ slot value, Names word slot value ∧ r.option slot value = .ok s := by
  rw [Form.eq_of_ofWord_short hword]
  cases hslot : Level.program.shorts.lookup letter with
  | some slot =>
    cases more with
    | nil =>
      simp only [Reading.short, hslot] at h
      exact ⟨slot, none, .short hslot, h⟩
    | cons c value =>
      -- One equals sign in front of the value is skipped.
      by_cases hc : c = '='
      · subst hc
        simp only [Reading.short, hslot] at h
        exact ⟨slot, some _, .shortEquals value hslot, h⟩
      · rw [short_value hslot hc] at h
        exact ⟨slot, some _, .shortValue value hslot hc, h⟩
  | none =>
    simp only [Reading.short, hslot] at h
    split_ifs at h <;> exact absurd h (ask_ne_ok _ _)

/-- What the first of some words can be, if a command comes up: an option, a value that is waited
    for, or that command. -/
theorem scan_cons_cases {command : CommandName} {rest : List String}
    (h : Level.program.scan r (word :: words) = .ok (last, some (command, rest))) :
    (∃ slot value s, Names word slot value ∧ r.option slot value = .ok s ∧
      Level.program.scan s words = .ok (last, some (command, rest))) ∨
    (∃ slot, r.pending = some (slot, none) ∧ Form.ofWord word = .plain ∧
      Level.program.scan { r with pending := some (slot, some word) } words =
        .ok (last, some (command, rest))) ∨
    ((∀ slot, r.pending ≠ some (slot, none)) ∧
      Level.program.commands.lookup word = some command ∧ last = r ∧ rest = words) := by
  unfold Level.scan at h
  split at h
  · -- Behind two dashes nothing is a command.
    obtain ⟨_, -, h⟩ := ok_of_bind h
    cases h
  · rename_i name value hword
    obtain ⟨s, hs, hscan⟩ := ok_of_bind h
    obtain ⟨slot, value, hnames, hoption⟩ := names_of_long hword hs
    exact .inl ⟨slot, value, s, hnames, hoption, hscan⟩
  · rename_i letter more hword
    obtain ⟨s, hs, hscan⟩ := ok_of_bind h
    obtain ⟨slot, value, hnames, hoption⟩ := names_of_short hword hs
    exact .inl ⟨slot, value, s, hnames, hoption, hscan⟩
  · -- A plain word is the value of the option that waits for one.
    rename_i slot hword hpending
    exact .inr (.inl ⟨slot, hpending, hword, h⟩)
  · rename_i hword hpending
    split at h
    · rename_i name hname
      cases h
      exact .inr (.inr ⟨hpending, hname, rfl, rfl⟩)
    · split at h
      · cases h
      · -- The program has no operands of its own.
        obtain ⟨_, hoperand, -⟩ := ok_of_bind h
        obtain ⟨_, -, hthrow⟩ := ok_of_bind hoperand
        cases hthrow

/-! ## Reading up to the command -/

variable {front : List String} {given : List (Slot × String)} {done : Reading}
  {command : CommandName} {rest : List String}

/-- Nothing that has been read waits for its value. -/
def Reading.Complete (r : Reading) : Prop :=
  ∀ slot, r.pending ≠ some (slot, none)

/-- A value is put behind those given before. -/
private theorem eq_of_put {slot : Slot} {value : String} {s : Reading}
    (h : r.put slot value = .ok s) :
    s = { r with given := r.given ++ [(slot, value)] } := by
  unfold Reading.put at h
  split at h
  · cases h
  · exact (Except.ok.inj h).symm

/-- Once settled, no option waits for a value. -/
private theorem pending_of_settle (h : r.settle = .ok done) : done.pending = none := by
  unfold Reading.settle at h
  split at h
  · rename_i hpending
    rw [← Except.ok.inj h, hpending]
  · cases h
  · rw [eq_of_put h]

/-- A value in the word of its option joins what has been given before it. -/
private theorem settle_of_joined {slot : Slot} {value : String} {s : Reading}
    (h : r.option slot (some value) = .ok s) :
    ∃ r', r.settle = .ok r' ∧ s.settle = .ok s ∧ s.given = r'.given ++ [(slot, value)] := by
  obtain ⟨r', hsettle, hput⟩ := ok_of_bind h
  refine ⟨r', hsettle, ?_, by rw [eq_of_put hput]⟩
  unfold Reading.settle
  rw [eq_of_put hput, pending_of_settle hsettle]

/-- An option that can be settled has its value. -/
private theorem complete_of_settle (h : r.settle = .ok done) : r.Complete := by
  intro slot hpending
  rw [Reading.settle, hpending] at h
  cases h

/-- The word behind an option that waits for a value is that value. -/
private theorem scan_awaited {slot : Slot} {value : String} (hr : r.pending = some (slot, none))
    (hvalue : Form.ofWord value = .plain) (words : List String) :
    Level.program.scan r (value :: words) =
      Level.program.scan { r with pending := some (slot, some value) } words := by
  simp only [Level.scan, hvalue, hr]

/-- The name of a command ends the options. -/
private theorem scan_command {name : String} (hr : r.Complete)
    (hname : Level.program.commands.lookup name = some command) (tail : List String) :
    Level.program.scan r (name :: tail) = .ok (r, some (command, tail)) := by
  match hpending : r.pending with
  | none | some (_, some _) => simp only [Level.scan, plain_of_command hname, hpending, hname]
  | some (slot, none) => exact absurd hpending (hr slot)

/-- An option that waits for a value has to find it in the next word. -/
private theorem exists_of_awaited {slot : Slot} (hr : r.pending = some (slot, none))
    (h : Level.program.scan r words = .ok (last, some (command, rest))) :
    ∃ value words', words = value :: words' ∧ Form.ofWord value = .plain ∧
      Level.program.scan { r with pending := some (slot, some value) } words' =
        .ok (last, some (command, rest)) := by
  cases words with
  | nil => cases h
  | cons value words =>
    -- An option cannot be settled before it has its value, and neither can a command follow.
    rcases scan_cons_cases h with ⟨_, _, s, -, hoption, -⟩ | ⟨slot', hr', hvalue, hscan⟩ | ⟨hr', -⟩
    · obtain ⟨r', hsettle, -⟩ := ok_of_bind hoption
      exact absurd hr (complete_of_settle hsettle slot)
    · rw [hr] at hr'
      cases hr'
      exact ⟨value, words, rfl, hvalue, hscan⟩
    · exact absurd hr (hr' slot)

/-- An option that has its value is complete. -/
private theorem complete_of_value (slot : Slot) (value : String) :
    ({ r with pending := some (slot, some value) } : Reading).Complete := by
  intro slot' hpending
  cases Option.some.inj hpending

/-- At the beginning no option waits. -/
private theorem complete_empty : Reading.Complete {} :=
  complete_of_settle rfl

/-- In front of a command that comes up stand words that spell what has been read. -/
theorem exists_spells (hr : r.Complete)
    (h : Level.program.scan r words = .ok (last, some (command, rest)))
    (hlast : last.settle = .ok done) :
    ∃ r' front name given, r.settle = .ok r' ∧ words = front ++ name :: rest ∧
      Level.program.commands.lookup name = some command ∧ Spells front given ∧
      done.given = r'.given ++ given := by
  -- By the number of words: an option takes one or two of them.
  induction hlength : words.length using Nat.strong_induction_on generalizing r words with
  | _ n ih =>
    subst hlength
    cases words with
    | nil => cases h
    | cons word words =>
      rcases scan_cons_cases h with
        ⟨slot, value, s, hnames, hoption, hscan⟩ | ⟨slot, hpending, -⟩ | ⟨-, hname, rfl, rfl⟩
      · cases value with
        | some value =>
          -- The option has its value in the same word.
          obtain ⟨r', hsettle, hs, hgiven⟩ := settle_of_joined hoption
          obtain ⟨s', front, name, given, hs', rfl, hname, hspells, hdone⟩ :=
            ih _ (Nat.lt_succ_self _) (complete_of_settle hs) hscan rfl
          rw [hs] at hs'
          cases hs'
          refine ⟨r', word :: front, name, _, hsettle, rfl, hname, .joined hnames hspells, ?_⟩
          rw [hdone, hgiven, List.append_assoc, List.singleton_append]
        | none =>
          -- The option waits for its value, which is the next word.
          obtain ⟨r', hsettle, hs⟩ := ok_of_bind hoption
          cases hs
          obtain ⟨value, words, rfl, hvalue, hscan⟩ := exists_of_awaited rfl hscan
          obtain ⟨s', front, name, given, hs', rfl, hname, hspells, hdone⟩ :=
            ih _ (by simp only [List.length_cons]; omega) (complete_of_value slot value) hscan rfl
          refine ⟨r', word :: value :: front, name, _, hsettle, rfl, hname,
            .apart hnames hvalue hspells, ?_⟩
          rw [hdone, eq_of_put hs', List.append_assoc, List.singleton_append]
      · exact absurd hpending (hr slot)
      · exact ⟨done, [], word, [], hlast, rfl, hname, .nil, (List.append_nil _).symm⟩

/-- What has been read up to a command is what the words in front of it spell. -/
theorem given_of_spells {name : String} {tail : List String} (hspells : Spells front given)
    (hname : Level.program.commands.lookup name = some command) {next : CommandName × List String}
    (hr : r.Complete) (h : Level.program.scan r (front ++ name :: tail) = .ok (last, some next))
    (hlast : last.settle = .ok done) :
    ∃ r', r.settle = .ok r' ∧ done.given = r'.given ++ given := by
  induction hspells generalizing r with
  | nil =>
    rw [List.nil_append, scan_command hr hname] at h
    cases h
    exact ⟨done, hlast, (List.append_nil _).symm⟩
  | joined hnames _ ih =>
    rw [List.cons_append, scan_names hnames] at h
    obtain ⟨s, hoption, hscan⟩ := ok_of_bind h
    obtain ⟨r', hsettle, hs, hgiven⟩ := settle_of_joined hoption
    obtain ⟨s', hs', hdone⟩ := ih (complete_of_settle hs) hscan
    rw [hs] at hs'
    cases hs'
    exact ⟨r', hsettle, by rw [hdone, hgiven, List.append_assoc, List.singleton_append]⟩
  | apart hnames hvalue _ ih =>
    rw [List.cons_append, List.cons_append, scan_names hnames] at h
    obtain ⟨s, hoption, hscan⟩ := ok_of_bind h
    obtain ⟨r', hsettle, hs⟩ := ok_of_bind hoption
    cases hs
    -- The value is looked at with the word behind it, by what is read from there on.
    rw [scan_awaited rfl hvalue] at hscan
    obtain ⟨s', hs', hdone⟩ := ih (complete_of_value _ _) hscan
    refine ⟨r', hsettle, ?_⟩
    rw [hdone, eq_of_put hs', List.append_assoc, List.singleton_append]

/-! ## What a program that runs has been told -/

/-- A value comes from an option or else from the environment. -/
private theorem value_eq_or {environment : Environment} {slot : Slot}
    (h : Arguments.value environment r slot = .ok value) :
    value = (r.given.lookup slot).or (slot.variableName?.bind environment) := by
  unfold Arguments.value at h
  -- The environment is asked only about what has not been given.
  cases hgiven : r.given.lookup slot with
  | some given =>
    rw [hgiven] at h
    exact (Except.ok.inj h).symm
  | none =>
    rw [hgiven] at h
    cases henvironment : slot.variableName?.bind environment with
    | none =>
      rw [henvironment] at h
      exact (Except.ok.inj h).symm
    | some text =>
      rw [henvironment] at h
      dsimp only at h
      split_ifs at h
      exact (Except.ok.inj h).symm

/-- The options of some arguments: those given in front of the command, or else what the environment
    has in their place. -/
structure Arguments.Holds (a : Arguments) (environment : Environment)
    (given : List (Slot × String)) : Prop where
  config : a.config = (given.lookup .config).or (environment "KVMD_CONSOLE_CONFIG")
  url : a.url = (given.lookup .url).or (environment "KVMD_URL")
  user : a.user = (given.lookup .user).or (environment "KVMD_USER")
  passwd : a.passwd = (given.lookup .passwd).or (environment "KVMD_PASSWD")
  touch : a.touch = (given.lookup .touch).isSome

/-- The reading that arguments come from. -/
private theorem exists_of_ofWords {environment : Environment} {a : Arguments}
    (h : Arguments.ofWords environment words = .ok a) :
    ∃ last next done, Level.program.scan {} words = .ok (last, some next) ∧
      last.settle = .ok done ∧ a.Holds environment done.given := by
  unfold Arguments.ofWords at h
  -- Every step of the reading has to end well, one after the other.
  obtain ⟨⟨last, next⟩, hscan, h⟩ := ok_of_bind h
  cases next with
  | none => cases h
  | some next =>
    obtain ⟨_, -, h⟩ := ok_of_bind h
    obtain ⟨_, -, h⟩ := ok_of_bind h
    obtain ⟨done, hsettle, h⟩ := ok_of_bind h
    obtain ⟨config, hconfig, h⟩ := ok_of_bind h
    obtain ⟨url, hurl, h⟩ := ok_of_bind h
    obtain ⟨user, huser, h⟩ := ok_of_bind h
    obtain ⟨passwd, hpasswd, h⟩ := ok_of_bind h
    cases h
    exact ⟨last, next, done, hscan, hsettle, value_eq_or hconfig, value_eq_or hurl,
      value_eq_or huser, value_eq_or hpasswd, rfl⟩

/-- Words that are accepted are options and a command. -/
theorem Arguments.exists_gives {environment : Environment} {a : Arguments}
    (h : Arguments.ofWords environment words = .ok a) : ∃ given, Gives words given := by
  obtain ⟨last, ⟨command, rest⟩, done, hscan, hsettle, -⟩ := exists_of_ofWords h
  obtain ⟨_, front, name, given, -, hwords, hname, hspells, -⟩ :=
    exists_spells complete_empty hscan hsettle
  exact ⟨given, front, name, command, rest, hwords, hname, hspells⟩

/-- However the words are taken apart, the arguments hold what they give. -/
theorem Arguments.holds_of_gives {environment : Environment} {a : Arguments}
    (h : Arguments.ofWords environment words = .ok a) (hgiven : Gives words given) :
    a.Holds environment given := by
  obtain ⟨last, next, done, hscan, hsettle, hholds⟩ := exists_of_ofWords h
  obtain ⟨front, name, command, tail, rfl, hname, hspells⟩ := hgiven
  obtain ⟨r', hr', hdone⟩ :=
    given_of_spells hspells hname complete_empty hscan hsettle
  cases hr'
  rw [List.nil_append] at hdone
  rwa [← hdone]

end KvmConsole.CommandLine
