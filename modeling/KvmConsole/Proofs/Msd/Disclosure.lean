import KvmConsole.Msd.View

/-!
# What a view gives away

A device out of operation reports a storage all the same, and a client has its own doings whether or
not anything is known about the device. A view keeps both to itself. It reads the storage in four
places, each of them behind the state of operation, so that a storage that is masked there gives the
same view.

Key results:
* `Status.render_masked`: the storage of a device out of operation is not seen.
* `Status.render_with_info`: the storage is seen in four places.
* `Status.showsImage_render_iff`, `Status.imageBroken_render_iff`: when the image is seen.
* `views_disclose`: what two views of the same panel can differ in.
-/

namespace KvmConsole.Msd

/-! ## What may be seen of a status -/

namespace Status

/-- Nothing that may be seen differs: the storage matters only while the device works. -/
structure LooksLike (s t : Status) : Prop where
  connectedTo_eq : s.connectedTo = t.connectedTo
  busy_eq : s.busy = t.busy
  inOperate_eq : s.inOperate = t.inOperate
  info_eq : s.inOperate = true → s.info = t.info

/-- The status with an empty storage, if the device is out of operation. -/
def masked (s : Status) : Status := if s.inOperate then s else { s with info := ⟨0, none⟩ }

/-- In operation nothing of a status is hidden. -/
private theorem masked_of_inOperate {s : Status} (h : s.inOperate = true) : s.masked = s := if_pos h

/-- Out of operation the storage is hidden. -/
private theorem masked_of_off {s : Status} (h : s.inOperate = false) :
    s.masked = { s with info := ⟨0, none⟩ } := by
  simp [masked, h]

/-- Statuses that look alike are the same once what is hidden is blanked out. -/
private theorem LooksLike.masked_eq {s t : Status} (h : s.LooksLike t) : s.masked = t.masked := by
  obtain ⟨target, busy, inOperate, info⟩ := s
  obtain ⟨target', busy', inOperate', info'⟩ := t
  obtain ⟨rfl, rfl, rfl, hinfo⟩ := h
  cases inOperate with
  | false => rfl
  | true =>
    obtain rfl := hinfo rfl
    rfl

/-- What a device out of operation reports about its storage is not seen. -/
theorem render_masked (s : Status) (loc : Local) : s.masked.render loc = s.render loc := by
  cases h : s.inOperate with
  | true => rw [masked_of_inOperate h]
  | false =>
    rw [masked_of_off h]
    -- The image and the size of the storage are asked for behind `inOperate` only.
    simp only [render, h, headline, operationalImage, Mode.derive, Disabled.derive]
    rfl

/-- Statuses that look alike give one view. -/
private theorem render_eq_of_looksLike {s t : Status} (h : s.LooksLike t) (loc : Local) :
    s.render loc = t.render loc := by
  rw [← s.render_masked, ← t.render_masked, h.masked_eq]

/-- The storage is seen in the banner of a broken image, the name and the size of the image, and the
    size of the storage, and nowhere else. -/
theorem render_with_info (s : Status) (info : Storage) (loc : Local) :
    let view := { s with info }.render loc
    view = { s.render loc with
      imageBroken := view.imageBroken
      imageName := view.imageName
      imageSize := view.imageSize
      storageSize := view.storageSize } := rfl

end Status

/-! ## The image -/

/-- Shown are the name and the size of the image. -/
def View.ShowsImage (v : View) (i : Image) : Prop :=
  v.imageName = i.name ∧ v.imageSize = sizeText i.size

/-- The label of a size can be told from that of an image that is not there. -/
private theorem sizeText_ne_noneLabel (size : UInt64) : sizeText size ≠ noneLabel := by
  unfold sizeText SizeLabel.ofSize
  split
  · decide
  · -- A blank stands before the unit.
    intro h
    have hblank : ' ' ∈ noneLabel.toList := by
      rw [← h]
      simp [SizeLabel.text]
    simp [noneLabel] at hblank

namespace Status

variable {s : Status}

/-- An image is operational if it is there and the device is in operation. -/
private theorem operationalImage_eq_some_iff {i : Image} :
    s.operationalImage = some i ↔ s.inOperate = true ∧ s.info.image = some i := by
  cases h : s.inOperate <;> simp [operationalImage, h]

/-- No image is operational if there is none, or if the device is out of operation. -/
private theorem operationalImage_eq_none_iff :
    s.operationalImage = none ↔ ¬(s.inOperate = true ∧ s.info.image.isSome) := by
  cases h : s.inOperate <;> simp [operationalImage, h]

/-- The view of an operational image has its name and its size. -/
private theorem showsImage_render {i : Image} (h : s.operationalImage = some i) (loc : Local) :
    (s.render loc).ShowsImage i := by
  simp only [View.ShowsImage, render, h]
  exact ⟨rfl, rfl⟩

/-- Without an operational image both labels say that there is none. -/
private theorem labels_render (h : s.operationalImage = none) (loc : Local) :
    (s.render loc).imageName = noneLabel ∧ (s.render loc).imageSize = noneLabel := by
  simp only [render, h]
  exact ⟨rfl, rfl⟩

/-- The current image is seen exactly while the device works. An image may have any name, so that it
    is the size that tells it from none. -/
theorem showsImage_render_iff (loc : Local) :
    (∃ i ∈ s.info.image, (s.render loc).ShowsImage i) ↔
      s.inOperate = true ∧ s.info.image.isSome := by
  constructor
  · rintro ⟨i, -, -, hsize⟩
    by_cases hshown : s.inOperate = true ∧ s.info.image.isSome
    · exact hshown
    · have hlabels := labels_render (operationalImage_eq_none_iff.mpr hshown) loc
      exact absurd (hsize.symm.trans hlabels.2) (sizeText_ne_noneLabel i.size)
  · rintro ⟨hoperate, hsome⟩
    obtain ⟨i, hi⟩ := Option.isSome_iff_exists.mp hsome
    exact ⟨i, hi, showsImage_render (operationalImage_eq_some_iff.mpr ⟨hoperate, hi⟩) loc⟩

/-- The banner speaks of a current image, and only between two writes. -/
theorem imageBroken_render_iff (loc : Local) :
    (s.render loc).imageBroken = true ↔
      s.inOperate = true ∧ s.busy = false ∧ ∃ i ∈ s.info.image, i.complete = false := by
  have hbanner : (s.render loc).imageBroken =
      (s.operationalImage.any (!·.complete) && !s.busy) := rfl
  rw [hbanner, operationalImage]
  cases s.inOperate <;> cases s.busy <;> cases s.info.image <;> simp

end Status

/-! ## Views -/

/-- The image that the status reports, whether the device works or not. -/
def currentImage (status : Option Status) : Option Image := status.bind (·.info.image)

/-- The device is known to work. -/
def Operates (status : Option Status) : Prop := ∃ s ∈ status, s.inOperate = true

/-- With a status known, the view is the one of the status. -/
private theorem render_some (s : Status) (loc : Local) : render (some s) loc = s.render loc := rfl

/-- The image is shown if it is there and the device is in operation. -/
theorem showsImage_render_iff (status : Option Status) (loc : Local) :
    (∃ i ∈ currentImage status, (render status loc).ShowsImage i) ↔
      Operates status ∧ (currentImage status).isSome := by
  cases status with
  | none => simp [currentImage]
  | some s => simpa [currentImage, Operates, render_some] using s.showsImage_render_iff loc

/-- Otherwise both labels are the same text, which is empty or says that there is none. -/
private theorem labels_render_of_hidden {status : Option Status}
    (h : ¬(Operates status ∧ (currentImage status).isSome)) (loc : Local) :
    (render status loc).imageName = (render status loc).imageSize ∧
      (render status loc).imageSize ∈ ["", noneLabel] := by
  cases status with
  | none => exact ⟨rfl, .head _⟩
  | some s =>
    have himage : s.operationalImage = none := by
      rw [Status.operationalImage_eq_none_iff]
      simpa [currentImage, Operates] using h
    obtain ⟨hname, hsize⟩ := Status.labels_render himage loc
    rw [render_some, hname, hsize]
    simp

/-- The banner about an incomplete image needs the image, operation, and no work on the storage. -/
theorem imageBroken_render_iff (status : Option Status) (loc : Local) :
    (render status loc).imageBroken = true ↔
      ∃ s ∈ status, s.inOperate = true ∧ s.busy = false ∧
        ∃ i ∈ s.info.image, i.complete = false := by
  cases status with
  | none => simp [render, View.blank]
  | some s => simpa [render_some] using s.imageBroken_render_iff loc

/-- What a view gives away.

    * Statuses of the same target, work and operation have the same view, if the device is out of
      operation, and also if they report the same storage.
    * Where the storages differ, the image and the size of the storage are all that may look
      different: the mode, the light, the buttons and the rest do not.
    * While nothing is known about the device, nothing is seen of what this client does.
    * The name and the size of the current image are shown exactly while the device works; otherwise
      the two labels are empty or say that there is none. The banner of a broken image is shown only
      for an image that is shown, and never while one is written. -/
theorem views_disclose :
    (∀ (s t : Status) (loc : Local), s.LooksLike t →
      render (some s) loc = render (some t) loc) ∧
    (∀ (s : Status) (info : Storage) (loc : Local),
      let view := render (some { s with info }) loc
      view = { render (some s) loc with
        imageBroken := view.imageBroken
        imageName := view.imageName
        imageSize := view.imageSize
        storageSize := view.storageSize }) ∧
    (∀ loc loc' : Local, render none loc = render none loc') ∧
    ∀ (status : Option Status) (loc : Local),
      let view := render status loc
      ((∃ i ∈ currentImage status, view.ShowsImage i) ↔
        Operates status ∧ (currentImage status).isSome) ∧
      (¬(Operates status ∧ (currentImage status).isSome) →
        view.imageName = view.imageSize ∧ view.imageSize ∈ ["", noneLabel]) ∧
      (view.imageBroken = true ↔ ∃ s ∈ status, s.inOperate = true ∧ s.busy = false ∧
        ∃ i ∈ s.info.image, i.complete = false) := by
  refine ⟨?_, ?_, ?_, ?_⟩
  · intro s t loc h
    exact Status.render_eq_of_looksLike h loc
  · intro s info loc
    exact s.render_with_info info loc
  · intro loc loc'
    rfl
  · intro status loc view
    exact ⟨showsImage_render_iff status loc, fun h => labels_render_of_hidden h loc,
      imageBroken_render_iff status loc⟩

/-- A device out of operation, with the rest of an image whose name is the label for none. -/
def offWithImage : Status := ⟨.kvm, false, false, ⟨4096, some ⟨"None", 1024, false⟩⟩⟩

/-- A device out of operation without any storage. -/
def offEmpty : Status := ⟨.kvm, false, false, ⟨0, none⟩⟩

/-- A client in the middle of an upload. -/
def midUpload : Local := ⟨some ⟨"new.iso", 512, "/tmp/new.iso"⟩, true, some .reset, .active 40⟩

/-- The two devices have the same view, and the image is not seen in it, although its name is. -/
theorem views_disclose_out_of_operation :
    offWithImage.LooksLike offEmpty ∧
      render (some offWithImage) midUpload = render (some offEmpty) midUpload ∧
      ¬(Operates (some offWithImage) ∧ (currentImage (some offWithImage)).isSome) ∧
      (render (some offWithImage) midUpload).imageName = "None" ∧
      ¬∃ i ∈ currentImage (some offWithImage),
        (render (some offWithImage) midUpload).ShowsImage i := by
  obtain ⟨hsame, -, -, hview⟩ := views_disclose
  have halike : offWithImage.LooksLike offEmpty := ⟨rfl, rfl, rfl, nofun⟩
  have hoff : ¬(Operates (some offWithImage) ∧ (currentImage (some offWithImage)).isSome) := by
    simp [Operates, offWithImage]
  obtain ⟨hshown, hlabels, -⟩ := hview (some offWithImage) midUpload
  refine ⟨halike, hsame _ _ _ halike, hoff, ?_, fun h => hoff (hshown.mp h)⟩
  obtain ⟨hname, -⟩ := hlabels hoff
  rw [hname]
  rfl

end KvmConsole.Msd
