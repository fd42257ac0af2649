import KvmConsole.Daemon.Client
import KvmConsole.Proofs.Daemon.ChunkedReading
import KvmConsole.Proofs.Msd.UploadBar

/-!
# The progress of an upload

Each chunk of an image is reported when it is handed over, with the number of bytes so far. Nothing
is left out and nothing is counted twice, so the reports lead up to the size of the image, and the
percentages that the panel shows of them lead up to 100.

Key results:
* `Client.progressEvents_chunks`: the reports about an image.
* `chunks_reach_the_whole`: the chunks of any image, their reports, and what is shown of them.
-/

namespace KvmConsole.Daemon

open Msd (Panel UploadId percentagesIn)

namespace Source

variable (s : Source) {size : Nat}

/-- The counts are multiples of the chunk size, and at last the number of bytes. -/
private theorem loadedAfter_chunks (hsize : 0 < size) :
    loadedAfter 0 (s.chunks size) =
      (List.range (s.chunks size).length).map fun k => min ((k + 1) * size) s.rest.length := by
  apply List.ext_getElem?
  intro k
  rw [s.getElem?_loadedAfter_chunks hsize, List.getElem?_map]
  rcases Nat.lt_or_ge k (s.chunks size).length with h | h
  · rw [List.getElem?_eq_getElem h, List.getElem?_range h]
    rfl
  · rw [List.getElem?_eq_none h, List.getElem?_eq_none (by rwa [List.length_range])]
    rfl

/-- The counts of a file whose length fits a machine word are in order. -/
private theorem pairwise_counts (hsize : 0 < size) (hlength : s.rest.length < 2 ^ 64) :
    ((loadedAfter 0 (s.chunks size)).map UInt64.ofNat).Pairwise (· ≤ ·) := by
  rw [s.loadedAfter_chunks hsize, List.map_map, List.pairwise_map]
  refine List.pairwise_lt_range.imp fun {j k} hjk => ?_
  have hmul : (j + 1) * size ≤ (k + 1) * size := Nat.mul_le_mul_right size (by omega)
  simp only [Function.comp_apply]
  rw [UInt64.ofNat_le_iff_le (by simp [UInt64.size]; omega) (by simp [UInt64.size]; omega)]
  omega

/-- The last count is that of the whole file. -/
private theorem getLast?_loadedAfter_chunks (hsize : 0 < size) (h : s.rest ≠ []) :
    (loadedAfter 0 (s.chunks size)).getLast? = some s.rest.length := by
  have hfirst := (s.lt_length_chunks_iff hsize 0).mpr
    (by simpa using List.length_pos_iff.mpr h)
  obtain ⟨n, hn⟩ := Nat.exists_eq_add_of_lt hfirst
  have hend : ¬ (s.chunks size).length * size < s.rest.length := fun hlt =>
    Nat.lt_irrefl _ ((s.lt_length_chunks_iff hsize _).mpr hlt)
  rw [s.loadedAfter_chunks hsize, hn, Nat.zero_add, List.range_succ, List.map_append,
    List.map_singleton, List.getLast?_concat, Option.some.injEq]
  rw [hn, Nat.zero_add] at hend
  omega

end Source

/-- The reports about an image that is handed over in chunks. -/
theorem Client.progressEvents_chunks (s : Source) {size : Nat} (hsize : 0 < size) (u : UploadId)
    (total : UInt64) :
    progressEvents u total (s.chunks size) =
      (List.range (s.chunks size).length).map fun k =>
        .uploadProgress u (UInt64.ofNat (min ((k + 1) * size) s.rest.length)) (some total) := by
  rw [progressEvents, s.loadedAfter_chunks hsize, List.map_map]
  rfl

/-- An image that is uploaded in chunks, whatever its content and however short the reads of its
    file come.

    * There are as many chunks as it takes. Put together they are the content. Each has the full
      size, but for the last one, which is not empty.
    * Read one call at a time, call `k` gives chunk `k` and makes one report, of as many bytes as
      `k + 1` full chunks have or as there are in all. After the last chunk, a call gives nothing
      and makes no report.
    * The panel hears the same, as events with those counts.
    * Take any session in which the image is uploaded and no abort is asked for, up to the end of
      the upload, with the reports about it coming in as they were made and anything else in
      between. If the upload was announced with the size of the image, and that is not zero, the
      percentages shown from its start on never fall, and the panel has come to 100. That is the
      last percentage shown, if a status is known at any time since the last report: without one,
      no progress is shown. -/
theorem chunks_reach_the_whole (content : List UInt8) (limits : List Nat) {size : Nat}
    (hsize : 0 < size) (total : UInt64) :
    let source : Source := ⟨content, limits⟩
    let chunks := source.chunks size
    let call (k : Nat) := ((ChunkReader.ofSource source size total).after k).next
    chunks.length = content.length ⌈/⌉ size ∧
    chunks.flatten = content ∧
    (∀ k chunk, chunks[k]? = some chunk →
      0 < chunk.length ∧ chunk.length ≤ size ∧ (k + 1 < chunks.length → chunk.length = size)) ∧
    (∀ k, (call k).result = chunks[k]? ∧
      (call k).effects =
        if k < chunks.length then [(UInt64.ofNat (min ((k + 1) * size) content.length), total)]
        else []) ∧
    (∀ u, Client.progressEvents u total chunks =
      (List.range chunks.length).map fun k =>
        .uploadProgress u (UInt64.ofNat (min ((k + 1) * size) content.length)) (some total)) ∧
    (∀ steps past m since, Panel.history steps = past ++ m :: since → ∀ u, m.Starts u →
      (∀ x ∈ since, x.input ≠ .abortUpload) →
      since.filterMap (·.input.reportOn? u) = Client.progressEvents u total chunks →
      total.toNat = content.length → content ≠ [] →
        (Panel.after steps).progress = .active 100 ∧
        (percentagesIn (m :: since)).Pairwise (· ≤ ·) ∧
        ∀ mid x rest, since = mid ++ x :: rest → (∀ y ∈ rest, y.input.reportOn? u = none) →
          x.turn.state.status ≠ none → (percentagesIn (m :: since)).getLast? = some 100) := by
  intro source chunks call
  refine ⟨source.length_chunks hsize, source.flatten_chunks hsize,
    fun k chunk => source.length_of_getElem?_chunks hsize,
    fun k => ChunkReader.next_after source total hsize k,
    fun u => Client.progressEvents_chunks source hsize u total, ?_⟩
  intro steps past m since hcut u hstart habort hreports htotal hcontent
  -- The counts fit 64 bits, as the announced size does.
  have hlength : source.rest.length < 2 ^ 64 := htotal ▸ total.toNat_lt
  have hpos : total ≠ 0 := by
    rintro rfl
    exact hcontent (List.length_eq_zero_iff.mp htotal.symm)
  have hevents : Client.progressEvents u total chunks =
      Msd.Event.progressOf u total ((loadedAfter 0 chunks).map UInt64.ofNat) := by
    rw [Msd.Event.progressOf, List.map_map]
    rfl
  rw [hevents] at hreports
  -- The last report is about all bytes, which are as many as were announced.
  have hwhole : ((loadedAfter 0 chunks).map UInt64.ofNat).getLast? = some total := by
    rw [List.getLast?_map, source.getLast?_loadedAfter_chunks hsize hcontent, Option.map_some,
      ← htotal, UInt64.ofNat_toNat]
  have hpercentages := Panel.percentages_of_upload hcut hstart habort hpos
    (source.pairwise_counts hsize hlength) hreports hwhole
  rwa [Msd.Progress.percentOf_eq_hundred hpos (UInt64.le_refl total)] at hpercentages

/-- An upload of five bytes, of which two are handed over at a time. -/
def fiveBytes : List Msd.Step :=
  [.setStatus (some ⟨.kvm, false, true, ⟨4096, none⟩⟩), .select ⟨"disk.img", 5, "/disk.img"⟩,
    .startUpload, .event (.uploadProgress ⟨1⟩ 2 (some 5)), .event (.uploadProgress ⟨1⟩ 4 (some 5)),
    .event (.uploadProgress ⟨1⟩ 5 (some 5))]

/-- The first two reads of the file give one byte each. The chunks are as large as ever, and the
    last percentage is 100. -/
theorem chunks_reach_the_whole_of_five :
    let chunks := Source.chunks ⟨[1, 2, 3, 4, 5], [1, 1]⟩ 2
    0 < 2 ∧ chunks.length = 3 ∧ chunks.flatten = [1, 2, 3, 4, 5] ∧
      (percentagesIn ((Panel.history fiveBytes).drop 2)).getLast? = some 100 := by
  intro chunks
  obtain ⟨hlength, hflatten, -, -, hevents, hshown⟩ :=
    chunks_reach_the_whole [1, 2, 3, 4, 5] [1, 1] (show 0 < 2 by decide) 5
  have hthree : chunks.length = 3 := hlength
  refine ⟨by decide, hthree, hflatten, ?_⟩
  -- Three chunks, hence three reports.
  have hreports : Client.progressEvents ⟨1⟩ 5 chunks =
      [.uploadProgress ⟨1⟩ 2 (some 5), .uploadProgress ⟨1⟩ 4 (some 5),
        .uploadProgress ⟨1⟩ 5 (some 5)] := by
    rw [hevents ⟨1⟩, hthree]
    rfl
  -- Nothing in the session aborts the upload.
  have habort : ∀ x ∈ (Panel.history fiveBytes).drop 3, x.input ≠ .abortUpload := by
    intro x hx habort
    have hinput := List.mem_map_of_mem (f := (·.input)) (List.mem_of_mem_drop hx)
    rw [Panel.history, Turn.map_input_history, habort] at hinput
    exact absurd hinput (by decide)
  have hfiltered : ((Panel.history fiveBytes).drop 3).filterMap (·.input.reportOn? ⟨1⟩) =
      Client.progressEvents ⟨1⟩ 5 chunks := by
    rw [hreports]
    rfl
  obtain ⟨-, -, hlast⟩ := hshown fiveBytes ((Panel.history fiveBytes).take 2) _ _ rfl ⟨1⟩ ⟨rfl, rfl⟩
    habort hfiltered rfl (List.cons_ne_nil _ _)
  exact hlast [_, _] _ [] rfl (List.forall_mem_nil _) (Option.some_ne_none _)

end KvmConsole.Daemon
