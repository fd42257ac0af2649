import KvmConsole.Turn

/-!
# Reading an image in chunks

An image is read in chunks of a fixed size, and each chunk is reported when it is handed over. A
single read of a file may return less than it was asked for, so a chunk is filled by as many reads
as it takes. `ChunkReader` is the same reading one call at a time.
-/

namespace KvmConsole.Daemon

/-- A file that is being read. `limits` holds how much the next reads return at most; a read returns
    at least one byte while there is one, and reads without a limit return what they are asked
    for. -/
structure Source where
  rest : List UInt8
  limits : List Nat
  deriving DecidableEq, Repr

namespace Source

/-- How much the next read returns of `wanted` bytes, before the end of the file. -/
def allowance (s : Source) (wanted : Nat) : Nat :=
  match s.limits with
  | [] => wanted
  | limit :: _ => min wanted (max 1 limit)

/-- Reads at most `wanted` bytes. Nothing comes at the end of the file only. -/
def read (s : Source) (wanted : Nat) : List UInt8 × Source :=
  (s.rest.take (s.allowance wanted), ⟨s.rest.drop (s.allowance wanted), s.limits.drop 1⟩)

theorem length_read_add (s : Source) (wanted : Nat) :
    (s.read wanted).1.length + (s.read wanted).2.rest.length = s.rest.length := by
  simp only [read, List.length_take, List.length_drop]
  omega

theorem length_read_le (s : Source) (wanted : Nat) : (s.read wanted).1.length ≤ wanted := by
  have : s.allowance wanted ≤ wanted := by
    unfold allowance
    split <;> omega
  simp only [read, List.length_take]
  omega

/-- Reads until there are `wanted` bytes or the file ends. -/
def fill (s : Source) (wanted : Nat) : List UInt8 × Source :=
  if wanted = 0 then ([], s)
  else
    match _h : s.read wanted with
    | ([], next) => ([], next)
    | (b :: bytes, next) =>
      let (more, last) := next.fill (wanted - (bytes.length + 1))
      (b :: bytes ++ more, last)
termination_by s.rest.length
decreasing_by
  have := s.length_read_add wanted
  simp only [_h, List.length_cons] at this
  omega

theorem length_fill_add (s : Source) (wanted : Nat) :
    (s.fill wanted).1.length + (s.fill wanted).2.rest.length = s.rest.length := by
  fun_induction fill s wanted with
  | case1 s => exact Nat.zero_add _
  | case2 s wanted _ next h =>
    have := s.length_read_add wanted
    rwa [h] at this
  | case3 s wanted _ b bytes next h more last hfill ih =>
    have := s.length_read_add wanted
    rw [h] at this
    rw [hfill] at ih
    simp only [List.length_append, List.length_cons] at this ih ⊢
    omega

/-- The chunks of a file, in order. The last one may be short, and none is empty. -/
def chunks (s : Source) (size : Nat) : List (List UInt8) :=
  match _h : s.fill size with
  | ([], _) => []
  | (b :: bytes, next) => (b :: bytes) :: next.chunks size
termination_by s.rest.length
decreasing_by
  have := s.length_fill_add size
  simp only [_h, List.length_cons] at this
  omega

end Source

/-- The number of bytes handed over after each chunk. -/
def loadedAfter (loaded : Nat) : List (List UInt8) → List Nat
  | [] => []
  | chunk :: rest => (loaded + chunk.length) :: loadedAfter (loaded + chunk.length) rest

/-- A file that is being handed over in chunks. -/
structure ChunkReader where
  source : Source
  size : Nat
  /-- How many bytes have been handed over. -/
  loaded : UInt64
  /-- How many bytes the upload has been announced with. -/
  total : UInt64
  deriving DecidableEq, Repr

namespace ChunkReader

/-- Fills the next chunk. If there is one, it is counted and reported before it is handed over. -/
def next (r : ChunkReader) : Turn ChunkReader (UInt64 × UInt64) (Option (List UInt8)) :=
  match r.source.fill r.size with
  | ([], source) => .idle { r with source } none
  | (b :: bytes, source) =>
    let loaded := r.loaded + UInt64.ofNat (bytes.length + 1)
    ⟨{ r with source, loaded }, [(loaded, r.total)], some (b :: bytes)⟩

/-- The reader of a file from which nothing has been read. -/
def ofSource (s : Source) (size : Nat) (total : UInt64) : ChunkReader := ⟨s, size, 0, total⟩

end ChunkReader

end KvmConsole.Daemon
