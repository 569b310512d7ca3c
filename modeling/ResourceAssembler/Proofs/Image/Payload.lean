import ResourceAssembler.Image.Surface
import ResourceAssembler.Proofs.Container.Placement

/-!
# Payloads of surfaces

A surface whose width and height fit two bytes has a payload, which states both and then holds the
pixels row by row. The place of a pixel in the payload is where the surface looks it up in its
raster, so that the payload tells everything that can be asked of the surface.
-/

namespace ResourceAssembler

open Container

/-- The bytes of a pixel in the order in which a raster holds them. -/
def Pixel.bytes (pixel : Pixel) : List UInt8 :=
  [pixel.red, pixel.green, pixel.blue, pixel.alpha]

theorem Pixel.bytes_inj {pixel other : Pixel} (h : pixel.bytes = other.bytes) : pixel = other := by
  obtain ⟨red, green, blue, alpha⟩ := pixel
  obtain ⟨red', green', blue', alpha'⟩ := other
  simpa [bytes] using h

namespace Surface

variable {surface other : Surface} {payload : ByteArray} {x y : Nat}

/-! ## Pixels in the raster -/

theorem slice?_four {bytes : List UInt8} {start : Nat} (h : start + 3 < bytes.length) :
    slice? bytes start 4 =
      some [bytes[start], bytes[start + 1], bytes[start + 2], bytes[start + 3]] := by
  rw [slice?, if_pos (by omega)]
  rw [List.drop_eq_getElem_cons (by omega), List.drop_eq_getElem_cons (by omega),
    List.drop_eq_getElem_cons (by omega), List.drop_eq_getElem_cons h]
  rfl

/-- The bytes of a pixel stand in the raster at four times its number. -/
theorem exists_pixel? (hx : x < surface.width) (hy : y < surface.height) :
    ∃ pixel, surface.pixel? x y = some pixel ∧
      slice? (octets surface.raster) (4 * surface.index x y) 4 = some pixel.bytes := by
  have hindex := index_lt hx hy
  have hsize := surface.size_raster
  have hroom : 4 * surface.index x y + 3 < (octets surface.raster).length := by
    rw [length_octets]
    omega
  unfold pixel?
  rw [dif_pos ⟨hx, hy⟩]
  exact ⟨_, rfl, slice?_four hroom⟩

theorem pixel?_of_outside (h : ¬(x < surface.width ∧ y < surface.height)) :
    surface.pixel? x y = none := by
  unfold pixel?
  rw [dif_neg h]

/-! ## Payloads -/

theorem payload_eq_error_iff {error : ImageError} :
    surface.payload = .error error ↔ (65535 < surface.width ∨ 65535 < surface.height) ∧
      error = .tooLarge surface.width surface.height := by
  unfold Surface.payload maxExtent
  by_cases h : surface.width ≤ 0xFFFF ∧ surface.height ≤ 0xFFFF
  · have hfits : ¬(65535 < surface.width ∨ 65535 < surface.height) := by omega
    simp [h, hfits]
  · have hlarge : 65535 < surface.width ∨ 65535 < surface.height := by omega
    simp [h, hlarge, eq_comm]

theorem payload_eq_ok_iff :
    surface.payload = .ok payload ↔ (surface.width ≤ 65535 ∧ surface.height ≤ 65535) ∧
      payload =
        bytesOf (Word.big 2 surface.width ++ Word.big 2 surface.height) ++ surface.raster := by
  unfold Surface.payload maxExtent
  by_cases h : surface.width ≤ 0xFFFF ∧ surface.height ≤ 0xFFFF
  · simp [h, eq_comm]
  · have hlarge : ¬(surface.width ≤ 65535 ∧ surface.height ≤ 65535) := h
    simp [hlarge]

/-- What a payload has to say of a surface: its extent, and each of its pixels in its own place. -/
structure StatedBy (surface : Surface) (payload : ByteArray) : Prop where
  size : payload.size = 4 + 4 * (surface.width * surface.height)
  width : big? 2 (octets payload) 0 = some surface.width
  height : big? 2 (octets payload) 2 = some surface.height
  pixel : ∀ x y, x < surface.width → y < surface.height → ∃ pixel,
    surface.pixel? x y = some pixel ∧
      slice? (octets payload) (4 + 4 * (y * surface.width + x)) 4 = some pixel.bytes

theorem statedBy_of_payload (h : surface.payload = .ok payload) : surface.StatedBy payload := by
  obtain ⟨⟨hwidth, hheight⟩, rfl⟩ := payload_eq_ok_iff.mp h
  have hoctets : octets (bytesOf (Word.big 2 surface.width ++ Word.big 2 surface.height) ++
      surface.raster) =
        Word.big 2 surface.width ++ (Word.big 2 surface.height ++ octets surface.raster) := by
    rw [octets_append, octets_bytesOf, List.append_assoc]
  have hwhole := holds_self (octets (bytesOf (Word.big 2 surface.width ++
    Word.big 2 surface.height) ++ surface.raster))
  conv at hwhole => rhs; rw [hoctets]
  obtain ⟨hfirst, hbehind⟩ := holds_append.mp hwhole
  obtain ⟨hsecond, hraster⟩ := holds_append.mp hbehind
  rw [Word.length_big, Nat.zero_add] at hsecond
  rw [Word.length_big, Word.length_big, Nat.zero_add] at hraster
  constructor
  case size =>
    rw [← length_octets, hoctets]
    simp only [List.length_append, Word.length_big, length_octets, surface.size_raster]
    omega
  case width => exact hfirst.big (Nat.lt_succ_of_le hwidth)
  case height => exact hsecond.big (Nat.lt_succ_of_le hheight)
  case pixel =>
    intro x y hx hy
    obtain ⟨pixel, hpixel, hslice⟩ := exists_pixel? hx hy
    exact ⟨pixel, hpixel, hraster.slice_trans hslice⟩

/-- A payload says the same of every surface that it states. -/
theorem StatedBy.pixel?_eq (h : surface.StatedBy payload) (hother : other.StatedBy payload) :
    other.width = surface.width ∧ other.height = surface.height ∧
      ∀ x y, other.pixel? x y = surface.pixel? x y := by
  have hwidth : other.width = surface.width :=
    Option.some.inj (hother.width.symm.trans h.width)
  have hheight : other.height = surface.height :=
    Option.some.inj (hother.height.symm.trans h.height)
  refine ⟨hwidth, hheight, fun x y => ?_⟩
  by_cases hinside : x < surface.width ∧ y < surface.height
  · obtain ⟨pixel, hpixel, hslice⟩ := h.pixel x y hinside.1 hinside.2
    obtain ⟨pixel', hpixel', hslice'⟩ :=
      hother.pixel x y (hwidth ▸ hinside.1) (hheight ▸ hinside.2)
    rw [hwidth, hslice] at hslice'
    have hsame : pixel = pixel' := Pixel.bytes_inj (Option.some.inj hslice')
    rw [hpixel, hpixel', hsame]
  · rw [pixel?_of_outside hinside, pixel?_of_outside (by rwa [hwidth, hheight])]

/-- Every surface of any extent. It has no payload exactly if its width or its height
does not fit two bytes, and otherwise one that states its extent and, in the place that
their column and row give, its pixels, which are all that it has. So surfaces with one
payload are the same to look at. -/
theorem payload_determines_surface (surface : Surface) :
    (∀ error, surface.payload = .error error ↔
      (65535 < surface.width ∨ 65535 < surface.height) ∧
        error = .tooLarge surface.width surface.height) ∧
    (surface.width ≤ 65535 ∧ surface.height ≤ 65535 →
      ∃ payload, surface.payload = .ok payload ∧ surface.StatedBy payload) ∧
    (∀ x y, ¬(x < surface.width ∧ y < surface.height) → surface.pixel? x y = none) ∧
    ∀ (other : Surface) (payload : ByteArray),
      surface.payload = .ok payload → other.payload = .ok payload →
      other.width = surface.width ∧ other.height = surface.height ∧
        ∀ x y, other.pixel? x y = surface.pixel? x y := by
  refine ⟨fun _ => payload_eq_error_iff, ?stated, fun _ _ => pixel?_of_outside, ?same⟩
  case stated =>
    intro hfits
    have hpayload := payload_eq_ok_iff.mpr ⟨hfits, rfl⟩
    exact ⟨_, hpayload, statedBy_of_payload hpayload⟩
  case same =>
    intro other payload hsurface hother
    exact (statedBy_of_payload hsurface).pixel?_eq (statedBy_of_payload hother)

end Surface

end ResourceAssembler
