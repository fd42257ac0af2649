import KvmConsole.Toml.Document
import Mathlib.Tactic.SplitIfs

/-!
# Integers of a document

An integer is read only if it has 64 bits, and nothing that the lines of a document do to its tables
makes a new one. So what is in the table of a document, however deep, is `Sized`.

Key results:
* `Entries.keeps_alongDots`, `Entries.keeps_alongHeader`: a change at the end of a path.
* `repeatRounds_holds`: what holds of a loop from round to round.
* `readsSized_readValue`, `sized_of_parse`: values and documents.
-/

namespace KvmConsole.Toml

/-- All integers in a value have 64 bits. -/
inductive Node.Sized : Node → Prop
  | string (value : String) : Sized (.string value)
  | integer {value : Int} :
    -0x8000000000000000 ≤ value → value < 0x8000000000000000 → Sized (.integer value)
  | float (value : Binary64) : Sized (.float value)
  | boolean (value : Bool) : Sized (.boolean value)
  | dateTime (text : String) : Sized (.dateTime text)
  | array {items : List Node} : (∀ item ∈ items, Sized item) → Sized (.array items)
  | table {origin : Origin} {entries : List (String × Node)} :
    (∀ entry ∈ entries, Sized entry.2) → Sized (.table origin entries)
  | tables {elements : List (List (String × Node))} :
    (∀ entries ∈ elements, ∀ entry ∈ entries, Sized entry.2) → Sized (.tables elements)

/-! ## Tables -/

namespace Entries

/-- All integers in a table have 64 bits. -/
def Sized (entries : Entries) : Prop :=
  ∀ entry ∈ entries, entry.2.Sized

variable {entries entries' : Entries} {change : Entries → Option Entries}

/-- An empty table has no integer at all. -/
private theorem sized_nil : Sized [] :=
  fun _ h => nomatch h

/-- A value is put into a table, in the place of the one under the same key if there is one. -/
theorem Sized.put (h : entries.Sized) (key : String) {node : Node} (hnode : node.Sized) :
    (entries.put key node).Sized := by
  induction entries with
  | nil => exact List.forall_mem_singleton.mpr hnode
  | cons entry rest ih =>
    obtain ⟨hentry, hrest⟩ := List.forall_mem_cons.mp h
    rw [Entries.put]
    split
    · exact List.forall_mem_cons.mpr ⟨hnode, hrest⟩
    · exact List.forall_mem_cons.mpr ⟨hentry, ih hrest⟩

/-- What is found in a table is as sized as the table. -/
theorem Sized.lookup (h : entries.Sized) {key : String} {node : Node}
    (hlookup : entries.lookup key = some node) : node.Sized := by
  obtain ⟨before, after, rfl, -⟩ := List.lookup_eq_some_iff.mp hlookup
  exact h (key, node) (by simp)

/-- The entries of a table that is found in a table. -/
private theorem Sized.entries_of_lookup (h : entries.Sized) {key : String} {origin : Origin}
    {inner : Entries} (hlookup : entries.lookup key = some (.table origin inner)) :
    inner.Sized := by
  cases h.lookup hlookup with
  | table hinner => exact hinner

/-- The elements of an array of tables that is found in a table. -/
private theorem Sized.elements_of_lookup (h : entries.Sized) {key : String}
    {elements : List Entries}
    (hlookup : entries.lookup key = some (.tables elements)) :
    ∀ element ∈ elements, element.Sized := by
  cases h.lookup hlookup with
  | tables helements => exact helements

/-- A change that makes no integer of another size. -/
def Keeps (change : Entries → Option Entries) : Prop :=
  ∀ entries entries', entries.Sized → change entries = some entries' → entries'.Sized

/-- A change inside is kept within the value of the first key of its path. -/
theorem keeps_alongDots (hchange : Keeps change) (path : List String) :
    Keeps (alongDots change path) := by
  induction path with
  | nil => exact hchange
  | cons key path ih =>
    intro entries entries' h halong
    unfold alongDots at halong
    split at halong
    · obtain ⟨inner, hinner, ⟨⟩⟩ := Option.bind_eq_some_iff.mp halong
      exact h.put key (.table (ih _ _ sized_nil hinner))
    · rename_i origin inner hlookup
      split at halong
      · -- A table is at the key, and may be reached through dots.
        obtain ⟨inner', hinner, ⟨⟩⟩ := Option.bind_eq_some_iff.mp halong
        exact h.put key (.table (ih _ _ (h.entries_of_lookup hlookup) hinner))
      · cases halong
    · rename_i last others hlookup
      -- Of an array of tables, the last one is changed.
      obtain ⟨hlast, hothers⟩ := List.forall_mem_cons.mp (h.elements_of_lookup hlookup)
      split at halong
      · obtain ⟨last', hlast', ⟨⟩⟩ := Option.bind_eq_some_iff.mp halong
        exact h.put key (.tables (List.forall_mem_cons.mpr ⟨ih _ _ hlast hlast', hothers⟩))
      · cases halong
    · cases halong

/-- A change that keeps integers in range does so at the end of a header's path. -/
theorem keeps_alongHeader (hchange : Keeps change) (path : List String) :
    Keeps (alongHeader change path) := by
  induction path with
  | nil => exact hchange
  | cons key path ih =>
    intro entries entries' h halong
    unfold alongHeader at halong
    split at halong
    · obtain ⟨inner, hinner, ⟨⟩⟩ := Option.bind_eq_some_iff.mp halong
      exact h.put key (.table (ih _ _ sized_nil hinner))
    · rename_i origin inner hlookup
      split at halong
      · cases halong
      · -- A table is at the key, and it is not an inline one.
        obtain ⟨inner', hinner, ⟨⟩⟩ := Option.bind_eq_some_iff.mp halong
        exact h.put key (.table (ih _ _ (h.entries_of_lookup hlookup) hinner))
    · rename_i last others hlookup
      -- Of an array of tables, the last one is changed.
      obtain ⟨hlast, hothers⟩ := List.forall_mem_cons.mp (h.elements_of_lookup hlookup)
      obtain ⟨last', hlast', ⟨⟩⟩ := Option.bind_eq_some_iff.mp halong
      exact h.put key (.tables (List.forall_mem_cons.mpr ⟨ih _ _ hlast hlast', hothers⟩))
    · cases halong

/-- A pair is put where its path leads. -/
private theorem keeps_insertPair (path : List String) (key : String) {value : Node}
    (hvalue : value.Sized) : Keeps (insertPair path key value) := by
  refine keeps_alongDots (fun inner inner' h hinner => ?_) path
  split at hinner
  · cases hinner
  · cases hinner
    exact h.put key hvalue

/-- A header makes a table, or opens one that only stood on the way of other headers. -/
private theorem keeps_openTable (path : List String) (key : String) :
    Keeps (openTable path key) := by
  refine keeps_alongHeader (fun inner inner' h hinner => ?_) path
  split at hinner
  · cases hinner
    exact h.put key (.table sized_nil)
  · rename_i content hlookup
    cases hinner
    exact h.put key (.table (h.entries_of_lookup hlookup))
  · cases hinner

/-- A header in double brackets adds a table to an array. -/
private theorem keeps_openElement (path : List String) (key : String) :
    Keeps (openElement path key) := by
  refine keeps_alongHeader (fun inner inner' h hinner => ?_) path
  split at hinner
  · cases hinner
    -- The array is made with this element.
    exact h.put key (.tables (List.forall_mem_singleton.mpr sized_nil))
  · rename_i elements hlookup
    cases hinner
    exact h.put key
      (.tables (List.forall_mem_cons.mpr ⟨sized_nil, h.elements_of_lookup hlookup⟩))
  · cases hinner

end Entries

/-- All integers of a line have 64 bits. -/
def Line.Sized : Line → Prop
  | pair _ _ value => value.Sized
  | header _ _ | elementHeader _ _ => True

/-- The lines of a document put nothing into its tables but their values. -/
theorem Entries.Sized.ofLines {entries table : Entries} {lines : List Line}
    (h : entries.Sized) (hlines : ∀ line ∈ lines, line.Sized) {header : List String}
    (htable : entries.ofLines header lines = some table) : table.Sized := by
  induction lines generalizing entries header with
  | nil =>
    cases htable
    exact h
  | cons line lines ih =>
    obtain ⟨hline, hlater⟩ := List.forall_mem_cons.mp hlines
    -- Each kind of line makes one change, and then the rest of the lines follows.
    cases line with
    | pair path key value =>
      obtain ⟨entries', hentries, hrest⟩ := Option.bind_eq_some_iff.mp htable
      exact ih (keeps_alongHeader (keeps_insertPair path key hline) _ _ _ h hentries) hlater hrest
    | header path key =>
      obtain ⟨entries', hentries, hrest⟩ := Option.bind_eq_some_iff.mp htable
      exact ih (keeps_openTable path key _ _ h hentries) hlater hrest
    | elementHeader path key =>
      obtain ⟨entries', hentries, hrest⟩ := Option.bind_eq_some_iff.mp htable
      exact ih (keeps_openElement path key _ _ h hentries) hlater hrest

/-! ## Scalars -/

variable {s rest : List Char} {node : Node}

/-- A number becomes an integer only if it fits 64 bits with a sign. -/
private theorem sized_of_ofInt? {n : Int} (h : ofInt? n = some node) : node.Sized := by
  unfold ofInt? at h
  split at h
  · rename_i hn
    cases h
    exact .integer hn.1 hn.2
  · cases h

/-- Hexadecimal, octal and binary integers are checked like decimal ones. -/
private theorem sized_of_readBased {base : Nat} {isOne : Char → Bool}
    (h : readBased base isOne s = some (node, rest)) : node.Sized := by
  obtain ⟨⟨ds, rest'⟩, -, h⟩ := Option.bind_eq_some_iff.mp h
  obtain ⟨node', hnode, ⟨⟩⟩ := Option.bind_eq_some_iff.mp h
  exact sized_of_ofInt? hnode

/-- What comes after the digits decides between an integer and a floating point number, and only the
    former has a range to keep. -/
private theorem sized_of_readAfterInteger {negative : Bool} {whole : List Char}
    (h : readAfterInteger negative whole s = some (node, rest)) : node.Sized := by
  unfold readAfterInteger at h
  split at h
  · obtain ⟨node', hnode, ⟨⟩⟩ := Option.bind_eq_some_iff.mp h
    exact sized_of_ofInt? hnode
  · split at h
    · -- A fraction or an exponent follows.
      obtain ⟨fraction, -, h⟩ := Option.bind_eq_some_iff.mp h
      obtain ⟨exponent, -, h⟩ := Option.bind_eq_some_iff.mp h
      dsimp only at h
      split at h
      · cases h
      · cases h
        exact .float _
    · obtain ⟨node', hnode, ⟨⟩⟩ := Option.bind_eq_some_iff.mp h
      exact sized_of_ofInt? hnode

/-- Infinities and NaN are no integers. -/
private theorem sized_of_readSpecial {negative : Bool}
    (h : readSpecial negative s = some (node, rest)) :
    node.Sized := by
  unfold readSpecial at h
  split at h <;> cases h <;> exact .float _

/-- Whatever its prefix and its sign, a number that is read is in range. -/
private theorem sized_of_readNumber (h : readNumber s = some (node, rest)) : node.Sized := by
  unfold readNumber at h
  split at h
  · exact sized_of_readBased h
  · exact sized_of_readBased h
  · exact sized_of_readBased h
  · dsimp only at h
    split at h
    · exact sized_of_readSpecial h
    · exact sized_of_readSpecial h
    · -- No prefix and no name, so that digits come first.
      obtain ⟨⟨whole, rest'⟩, -, h⟩ := Option.bind_eq_some_iff.mp h
      exact sized_of_readAfterInteger h

/-- A scalar that starts with a digit or a sign is a date, a time or a number. -/
private theorem sized_of_readScalar (h : readScalar s = some (node, rest)) : node.Sized := by
  unfold readScalar at h
  split at h
  · -- A date, with a time behind it or without.
    obtain ⟨_, -, h⟩ := Option.bind_eq_some_iff.mp h
    obtain ⟨_, -, ⟨⟩⟩ := Option.bind_eq_some_iff.mp h
    exact .dateTime _
  · split at h
    · -- A time alone.
      obtain ⟨_, -, ⟨⟩⟩ := Option.bind_eq_some_iff.mp h
      exact .dateTime _
    · exact sized_of_readNumber h

/-- A word is a truth value or a special number. -/
private theorem sized_of_readWord (h : readWord s = some (node, rest)) : node.Sized := by
  unfold readWord at h
  split at h
  · cases h
    exact .boolean _
  · cases h
    exact .boolean _
  · exact sized_of_readSpecial h

/-! ## Values -/

/-- A round whose state has one property, or whose result has another. -/
def Round.Holds {σ α : Type} (I : σ → Prop) (P : α → Prop) : Round σ α → Prop
  | more state _ => I state
  | done result _ => P result
  | refused => True

/-- What every round preserves holds of the result of a loop. The induction is on the rounds. -/
theorem repeatRounds_holds {σ α : Type} {round : σ → List Char → Round σ α} {I : σ → Prop}
    {P : α → Prop} (hround : ∀ state s, I state → (round state s).Holds I P) {state : σ}
    {result : α} (hstate : I state) (h : repeatRounds round state s = some (result, rest)) :
    P result := by
  fun_induction repeatRounds round state s with
  | case1 state s result' rest' hdone =>
    cases h
    -- The round is the last one.
    have := hround state s hstate
    rwa [hdone] at this
  | case2 => cases h
  | case3 state s state' rest' hmore hlength ih =>
    have := hround state s hstate
    rw [hmore] at this
    exact ih this h
  | case4 => cases h

/-- A reader that gives no integer of another size. -/
def ReadsSized (value : List Char → Option (Node × List Char)) : Prop :=
  ∀ s node rest, value s = some (node, rest) → node.Sized

variable {value : List Char → Option (Node × List Char)}

/-- The value of a pair in an inline table. -/
private theorem sized_of_readPair (hvalue : ReadsSized value) {path : List String} {key : String}
    (h : readPair value s = some ((path, key, node), rest)) : node.Sized := by
  obtain ⟨⟨⟨_, _⟩, _⟩, -, h⟩ := Option.bind_eq_some_iff.mp h
  obtain ⟨_, -, h⟩ := Option.bind_eq_some_iff.mp h
  obtain ⟨⟨_, _⟩, hnode, ⟨⟩⟩ := Option.bind_eq_some_iff.mp h
  exact hvalue _ _ _ hnode

/-- An array is read item by item, and the items so far are what the loop carries. -/
private theorem readsSized_readArray (hvalue : ReadsSized value) :
    ReadsSized (readArray value) := by
  intro s node rest h
  refine repeatRounds_holds (I := fun items => ∀ item ∈ items, item.Sized) (P := Node.Sized)
    (fun items s hitems => ?_) (fun _ hmem => nomatch hmem) h
  split
  · trivial
  · exact .array hitems
  · split
    · trivial
    · rename_i item rest hitem
      -- One more item, read by the reader of values.
      have hitems' : ∀ item' ∈ items ++ [item], item'.Sized :=
        List.forall_mem_append.mpr
          ⟨hitems, List.forall_mem_singleton.mpr (hvalue _ _ _ hitem)⟩
      split
      · exact hitems'
      · exact .array hitems'
      · trivial

/-- An inline table is read pair by pair, and the entries so far are what the loop carries. -/
private theorem readsSized_readInlineTable (hvalue : ReadsSized value) :
    ReadsSized (readInlineTable value) := by
  intro s node rest h
  unfold readInlineTable at h
  split at h
  · cases h
    exact .table Entries.sized_nil
  · refine repeatRounds_holds (I := Entries.Sized) (P := Node.Sized) (fun entries s hentries => ?_)
      Entries.sized_nil h
    split
    · trivial
    · rename_i path key node rest hpair
      split
      · trivial
      · rename_i entries' hinsert
        -- One more pair, put where its path leads.
        have hentries' : entries'.Sized :=
          Entries.keeps_insertPair path key (sized_of_readPair hvalue hpair) _ _ hentries hinsert
        split
        · exact hentries'
        · exact .table hentries'
        · trivial

/-- A value of any kind. The induction is on the room that is left for nesting: without room there
    are no arrays and no inline tables. -/
theorem readsSized_readValue (room : Nat) : ReadsSized (readValue room) := by
  induction room with
  | zero =>
    intro s node rest h
    unfold readValue at h
    split at h
    · cases h
    · split_ifs at h
      · obtain ⟨_, -, ⟨⟩⟩ := Option.map_eq_some_iff.mp h
        exact .string _
      · exact sized_of_readScalar h
      · exact sized_of_readWord h
  | succ room ih =>
    intro s node rest h
    unfold readValue at h
    split at h
    · cases h
    · -- With room left, the values inside have one level less.
      split_ifs at h
      · obtain ⟨_, -, ⟨⟩⟩ := Option.map_eq_some_iff.mp h
        exact .string _
      · exact readsSized_readArray ih _ _ _ h
      · exact readsSized_readInlineTable ih _ _ _ h
      · exact sized_of_readScalar h
      · exact sized_of_readWord h

/-! ## Documents -/

/-- A line with a pair holds the value of the pair. -/
private theorem sized_of_readPairLine {line : Line} (h : readPairLine s = some (line, rest)) :
    line.Sized := by
  obtain ⟨⟨⟨path, key, node⟩, _⟩, hpair, h⟩ := Option.bind_eq_some_iff.mp h
  obtain ⟨_, -, ⟨⟩⟩ := Option.bind_eq_some_iff.mp h
  exact sized_of_readPair (readsSized_readValue _) hpair

/-- A header holds no value. -/
private theorem sized_of_readHeaderLine {line : Line} (h : readHeaderLine s = some (line, rest)) :
    line.Sized := by
  unfold readHeaderLine at h
  split at h
  · -- In single brackets.
    obtain ⟨⟨⟨_, _⟩, _⟩, -, h⟩ := Option.bind_eq_some_iff.mp h
    obtain ⟨_, -, h⟩ := Option.bind_eq_some_iff.mp h
    obtain ⟨_, -, h⟩ := Option.bind_eq_some_iff.mp h
    obtain ⟨_, -, ⟨⟩⟩ := Option.bind_eq_some_iff.mp h
    trivial
  · obtain ⟨⟨⟨_, _⟩, _⟩, -, h⟩ := Option.bind_eq_some_iff.mp h
    obtain ⟨_, -, h⟩ := Option.bind_eq_some_iff.mp h
    obtain ⟨_, -, ⟨⟩⟩ := Option.bind_eq_some_iff.mp h
    trivial

/-- The lines of a document, read one after the other. -/
private theorem sized_of_readLines {lines : List Line} (h : readLines s = some lines) :
    ∀ line ∈ lines, line.Sized := by
  obtain ⟨⟨lines', rest⟩, hlines, ⟨⟩⟩ := Option.bind_eq_some_iff.mp h
  refine repeatRounds_holds (I := fun lines => ∀ line ∈ lines, line.Sized)
    (P := fun lines => ∀ line ∈ lines, line.Sized) (fun lines s hlines => ?_)
    (fun _ hmem => nomatch hmem) hlines
  -- One more line is added to those so far.
  have happend : ∀ line : Line, line.Sized → ∀ line' ∈ lines ++ [line], line'.Sized :=
    fun line hline =>
      List.forall_mem_append.mpr ⟨hlines, List.forall_mem_singleton.mpr hline⟩
  split
  · exact hlines
  · exact hlines
  · exact hlines
  · split
    · exact hlines
    · trivial
  · split
    · rename_i hline
      exact happend _ (sized_of_readHeaderLine hline)
    · trivial
  · split
    · rename_i hline
      exact happend _ (sized_of_readPairLine hline)
    · trivial

/-- All integers of a document have 64 bits. -/
theorem sized_of_parse {text : String} {table : Entries} (h : parse text = some table) :
    table.Sized := by
  obtain ⟨lines, hlines, htable⟩ := Option.bind_eq_some_iff.mp h
  exact Entries.sized_nil.ofLines (sized_of_readLines hlines) htable

end KvmConsole.Toml
