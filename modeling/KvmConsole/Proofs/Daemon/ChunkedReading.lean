import KvmConsole.Daemon.Upload
import Mathlib.Algebra.Order.Floor.Div
import Mathlib.Logic.Function.Iterate

/-!
# The chunks of an image

How far each read of a file comes is up to the system, but a chunk is filled by as many reads as it
takes. So where a file is cut into chunks depends on their size alone: chunk `k` begins at byte
`k * size`.

`ChunkReader` is the same reading one call at a time, with the count of what has been handed over.

Key results:
* `Source.fill_eq`: short reads are not seen in what they fill.
* `Source.flatten_take_chunks`, `Source.getElem?_chunks`: where the chunks are cut.
* `Source.length_chunks`: how many there are.
* `Source.getElem?_loadedAfter_chunks`: how much has been handed over after each.
* `ChunkReader.next_after`: what each call of a reader gives and reports.
-/

namespace KvmConsole.Daemon

namespace Source

variable (s : Source)

/-! ## Filling a chunk -/

/-- A read takes bytes off the front. -/
private theorem read_append_rest (wanted : Nat) :
    (s.read wanted).1 ++ (s.read wanted).2.rest = s.rest :=
  List.take_append_drop _ _

/-- A read that is asked for something and gives nothing has met the end of the file. -/
private theorem rest_of_read_eq_nil {wanted : Nat} (hwanted : 0 < wanted)
    (h : (s.read wanted).1 = []) :
    s.rest = [] := by
  have hpos : 0 < s.allowance wanted := by
    unfold allowance
    split <;> omega
  rcases List.take_eq_nil_iff.mp h with hzero | hnil
  · omega
  · exact hnil

/-- However short the reads are, the bytes that are wanted come, as far as there are any. -/
theorem fill_eq (wanted : Nat) :
    (s.fill wanted).1 = s.rest.take wanted ∧ (s.fill wanted).2.rest = s.rest.drop wanted := by
  fun_induction fill s wanted with
  -- The induction is on the reads. First, nothing is wanted.
  | case1 s => exact ⟨rfl, rfl⟩
  -- A read gives nothing, and that happens at the end only.
  | case2 s wanted hwanted next h =>
    have hrest : s.rest = [] :=
      s.rest_of_read_eq_nil (Nat.pos_of_ne_zero hwanted) (congrArg Prod.fst h)
    have happend := s.read_append_rest wanted
    rw [h, List.nil_append] at happend
    rw [happend, hrest, List.take_nil, List.drop_nil]
    exact ⟨rfl, rfl⟩
  -- A read gives some bytes, and the rest is read on.
  | case3 s wanted hwanted b bytes next h more last hfill ih =>
    have hlength := s.length_read_le wanted
    have happend := s.read_append_rest wanted
    rw [h] at hlength happend
    rw [hfill] at ih
    obtain ⟨hmore, hlast⟩ := ih
    -- What the read left is cut where the rest of the chunk ends.
    rw [← happend, List.take_append, List.drop_append, List.take_of_length_le hlength,
      List.drop_of_length_le hlength]
    exact ⟨congrArg (b :: bytes ++ ·) hmore, hlast⟩

/-! ## Cutting the file -/

variable {size : Nat}

/-- Nothing is left to cut. -/
private theorem chunks_of_rest_eq_nil {s : Source} (h : s.rest = []) (size : Nat) :
    s.chunks size = [] := by
  have hfill := (s.fill_eq size).1
  rw [h, List.take_nil] at hfill
  rw [chunks]
  split
  · rfl
  · rename_i b bytes next hcons
    rw [hcons] at hfill
    cases hfill

/-- The first chunk is as long as it can be, and the others are those of the rest. -/
private theorem chunks_of_rest_ne_nil {s : Source} (hsize : 0 < size) (h : s.rest ≠ []) :
    s.chunks size = s.rest.take size :: (s.fill size).2.chunks size := by
  have hfill := (s.fill_eq size).1
  rw [chunks]
  split
  · rename_i next hnil
    rw [hnil] at hfill
    rcases List.take_eq_nil_iff.mp hfill.symm with hzero | hrest
    · omega
    · exact absurd hrest h
  · rename_i b bytes next hcons
    rw [hcons] at hfill ⊢
    rw [← hfill]

/-- The first `k` chunks are the first `k * size` bytes. -/
theorem flatten_take_chunks (hsize : 0 < size) (k : Nat) :
    ((s.chunks size).take k).flatten = s.rest.take (k * size) := by
  induction k generalizing s with
  | zero => simp
  | succ k ih =>
    by_cases h : s.rest = []
    · rw [chunks_of_rest_eq_nil h, h, List.take_nil, List.take_nil, List.flatten_nil]
    · rw [chunks_of_rest_ne_nil hsize h, List.take_succ_cons, List.flatten_cons, ih,
        (s.fill_eq size).2, Nat.succ_mul, Nat.add_comm, List.take_add]

/-- Chunk `k` begins at byte `k * size`, if there is such a byte. -/
theorem getElem?_chunks (hsize : 0 < size) (k : Nat) :
    (s.chunks size)[k]? =
      if k * size < s.rest.length then some ((s.rest.drop (k * size)).take size) else none := by
  induction k generalizing s with
  | zero =>
    by_cases h : s.rest = []
    · simp [chunks_of_rest_eq_nil h, h]
    · simp [chunks_of_rest_ne_nil hsize h, List.length_pos_iff, h]
  | succ k ih =>
    by_cases h : s.rest = []
    · simp [chunks_of_rest_eq_nil h, h]
    · -- The later chunks are those of what the first one leaves.
      rw [chunks_of_rest_ne_nil hsize h, List.getElem?_cons_succ, ih, (s.fill_eq size).2,
        List.length_drop, List.drop_drop, Nat.succ_mul, Nat.add_comm size]
      congr 1
      exact propext (by omega)

/-- There is a chunk for every multiple of the size below the number of bytes. -/
theorem lt_length_chunks_iff (hsize : 0 < size) (k : Nat) :
    k < (s.chunks size).length ↔ k * size < s.rest.length := by
  rw [← not_iff_not, Nat.not_lt, ← List.getElem?_eq_none_iff, s.getElem?_chunks hsize]
  split <;> simp_all

/-- The number of chunks is that of bytes over the size, rounded up. -/
theorem length_chunks (hsize : 0 < size) : (s.chunks size).length = s.rest.length ⌈/⌉ size := by
  refine eq_of_forall_lt_iff fun k => ?_
  rw [s.lt_length_chunks_iff hsize, ← not_iff_not, Nat.not_lt, Nat.not_lt,
    ceilDiv_le_iff_le_mul hsize, Nat.mul_comm]

/-- The chunks make up the file. -/
theorem flatten_chunks (hsize : 0 < size) : (s.chunks size).flatten = s.rest := by
  have hall := s.flatten_take_chunks hsize (s.chunks size).length
  have hend : ¬ (s.chunks size).length * size < s.rest.length := fun h =>
    Nat.lt_irrefl _ ((s.lt_length_chunks_iff hsize _).mpr h)
  rw [List.take_length, List.take_of_length_le (Nat.not_lt.mp hend)] at hall
  exact hall

/-- Every chunk has the full size but the last one, which is not empty. -/
theorem length_of_getElem?_chunks (hsize : 0 < size) {k : Nat} {chunk : List UInt8}
    (h : (s.chunks size)[k]? = some chunk) :
    0 < chunk.length ∧ chunk.length ≤ size ∧
      (k + 1 < (s.chunks size).length → chunk.length = size) := by
  rw [s.lt_length_chunks_iff hsize, Nat.succ_mul]
  rw [s.getElem?_chunks hsize] at h
  split at h
  · rw [← Option.some.inj h, List.length_take, List.length_drop]
    omega
  · cases h

/-! ## Counting what has been handed over -/

/-- A count is the number of bytes in the chunks so far. -/
private theorem getElem?_loadedAfter (loaded : Nat) (chunks : List (List UInt8)) (k : Nat) :
    (loadedAfter loaded chunks)[k]? =
      chunks[k]?.map fun _ => loaded + ((chunks.take (k + 1)).flatten).length := by
  induction chunks generalizing loaded k with
  | nil => simp [loadedAfter]
  | cons chunk rest ih =>
    cases k with
    | zero => simp [loadedAfter]
    | succ k => simp [loadedAfter, ih, Nat.add_assoc]

/-- After chunk `k`, so much has been handed over as `k + 1` full chunks have, or all there is. -/
theorem getElem?_loadedAfter_chunks (hsize : 0 < size) (k : Nat) :
    (loadedAfter 0 (s.chunks size))[k]? =
      (s.chunks size)[k]?.map fun _ => min ((k + 1) * size) s.rest.length := by
  rw [getElem?_loadedAfter, s.flatten_take_chunks hsize, List.length_take, Nat.zero_add]

end Source

/-! ## One call at a time -/

namespace ChunkReader

/-- The reader after so many calls. -/
def after (r : ChunkReader) (calls : Nat) : ChunkReader := (fun r => r.next.state)^[calls] r

/-- One more call. -/
private theorem after_succ (r : ChunkReader) (calls : Nat) :
    r.after (calls + 1) = (r.after calls).next.state :=
  Function.iterate_succ_apply' _ calls r

/-- A call gives what the file has left, up to the size of a chunk, and counts it. It makes a report
    if that is anything. -/
private theorem next_eq (r : ChunkReader) :
    let chunk := r.source.rest.take r.size
    r.next.state =
        ⟨(r.source.fill r.size).2, r.size, r.loaded + UInt64.ofNat chunk.length, r.total⟩ ∧
      r.next.result = (if chunk = [] then none else some chunk) ∧
      r.next.effects = if chunk = [] then [] else [(r.next.state.loaded, r.total)] := by
  intro chunk
  have hfill : (r.source.fill r.size).1 = chunk := (r.source.fill_eq r.size).1
  -- An empty chunk ends the reading, and is not reported.
  unfold next
  split
  · rename_i source h
    rw [h] at hfill ⊢
    rw [← hfill]
    exact ⟨by simp [Turn.idle], rfl, rfl⟩
  · rename_i b bytes source h
    rw [h] at hfill ⊢
    rw [← hfill]
    exact ⟨rfl, rfl, rfl⟩

variable (s : Source) (size : Nat) (total : UInt64)

/-- After `k` calls, the chunks before chunk `k` have been handed over and counted. -/
private theorem after_ofSource (k : Nat) :
    ∃ source, source.rest = s.rest.drop (k * size) ∧
      (ofSource s size total).after k =
        ⟨source, size, UInt64.ofNat (min (k * size) s.rest.length), total⟩ := by
  induction k with
  | zero => exact ⟨s, by simp, by simp [after, ofSource]⟩
  | succ k ih =>
    obtain ⟨source, hrest, hafter⟩ := ih
    obtain ⟨hstate, -, -⟩ := next_eq ((ofSource s size total).after k)
    refine ⟨(source.fill size).2, ?_, ?_⟩
    · rw [(source.fill_eq size).2, hrest, List.drop_drop, Nat.succ_mul]
    · rw [after_succ, hstate, hafter]
      simp only [hrest, List.length_take, List.length_drop]
      -- The count grows by the chunk that has been handed over.
      rw [← UInt64.ofNat_add]
      congr 2
      rw [Nat.succ_mul]
      omega

/-- Call `k` gives chunk `k` and reports it once. When there is none left, the calls give nothing
    and report nothing. -/
theorem next_after {size : Nat} (hsize : 0 < size) (k : Nat) :
    let call := ((ofSource s size total).after k).next
    call.result = (s.chunks size)[k]? ∧
      call.effects =
        if k < (s.chunks size).length then
          [(UInt64.ofNat (min ((k + 1) * size) s.rest.length), total)]
        else [] := by
  intro call
  obtain ⟨source, hrest, hafter⟩ := after_ofSource s size total k
  obtain ⟨-, hresult, heffects⟩ := next_eq ((ofSource s size total).after k)
  have hchunk : ((ofSource s size total).after k).source.rest.take
      ((ofSource s size total).after k).size = (s.rest.drop (k * size)).take size := by
    rw [hafter, ← hrest]
  have htotal : ((ofSource s size total).after k).total = total := by rw [hafter]
  -- The reader after the call is the one after `k + 1` calls, and its count is the one reported.
  have hloaded : ((ofSource s size total).after k).next.state.loaded =
      UInt64.ofNat (min ((k + 1) * size) s.rest.length) := by
    obtain ⟨source', -, hafter'⟩ := after_ofSource s size total (k + 1)
    rw [← after_succ, hafter']
  have hempty : (s.rest.drop (k * size)).take size = [] ↔ ¬ k * size < s.rest.length := by
    rw [List.take_eq_nil_iff, List.drop_eq_nil_iff]
    omega
  rw [hchunk] at hresult heffects
  rw [hloaded, htotal] at heffects
  simp only [hempty, ite_not] at hresult heffects
  rw [s.getElem?_chunks hsize]
  simp only [s.lt_length_chunks_iff hsize]
  exact ⟨hresult, heffects⟩

end ChunkReader

end KvmConsole.Daemon
