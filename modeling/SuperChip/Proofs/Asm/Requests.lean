import Mathlib.Data.List.Induction
import Mathlib.Order.Bounds.Basic
import SuperChip.Proofs.Asm.Image
import SuperChip.Proofs.Bytes

/-!
# An image after any requests

A line may ask for bytes at any offset; what leaves program memory is refused and changes nothing.
So after any requests each place holds the byte of the last accepted one that covers it, or zero,
and the length is the furthest end of the accepted ones (`holds_last_accepted`). Both are shown by
induction on the requests, the latest of them last: either it decides, or what was true before it
still is.
-/

set_option autoImplicit false

namespace SuperChip

namespace Image

/-- Bytes that a source line asks to have at an offset. -/
structure Request where
  offset : Int
  data : List UInt8
  line : Int
  deriving DecidableEq, Repr

namespace Request

/-- The offset behind the last byte. -/
def stop (r : Request) : Int := r.offset + r.data.length

/-- The bytes lie in program memory. -/
def Fits (r : Request) : Prop := 0 ≤ r.offset ∧ r.stop ≤ programSize

/-- One of the bytes is for place `i`. -/
def Covers (r : Request) (i : Nat) : Prop := r.offset ≤ i ∧ i < r.stop

instance (r : Request) : Decidable r.Fits := inferInstanceAs (Decidable (_ ∧ _))

instance (r : Request) (i : Nat) : Decidable (r.Covers i) := inferInstanceAs (Decidable (_ ∧ _))

end Request

/-- The image after a request, and whether it was refused. -/
def request (image : Image) (r : Request) : Image × Except AsmError Unit :=
  match image.write r.offset r.data with
  | .ok next => (next, .ok ())
  | .error cause => (image, .error ⟨r.line, cause⟩)

/-- The image after requests, refused or not. -/
def after (image : Image) (requests : List Request) : Image :=
  requests.foldl (fun image r => (image.request r).1) image

/-- The byte `x` is that of the last accepted request that covers place `i`, or zero if none
does. -/
def LastByte (requests : List Request) (i : Nat) (x : UInt8) : Prop :=
  (∃ before r later, requests = before ++ r :: later ∧ r.Fits ∧ r.Covers i ∧
    (∀ s ∈ later, s.Fits → ¬s.Covers i) ∧ r.data[((i : Int) - r.offset).toNat]? = some x) ∨
  (∀ r ∈ requests, r.Fits → ¬r.Covers i) ∧ x = 0

variable {image : Image} {r : Request} {requests : List Request} {i : Nat} {x : UInt8}

namespace Request.Fits

/-- The offset of a request that fits is not negative. -/
theorem offset_eq (h : r.Fits) : r.offset = (r.offset.toNat : Nat) :=
  (Int.toNat_of_nonneg h.1).symm

/-- A request that fits stops behind its data. -/
theorem stop_eq (h : r.Fits) : r.stop = (r.offset.toNat + r.data.length : Nat) := by
  rw [stop, Int.natCast_add, ← h.offset_eq]

/-- A request that fits stays within program memory. -/
theorem room (h : r.Fits) : r.offset.toNat + r.data.length ≤ programSize :=
  Int.ofNat_le.mp (h.stop_eq ▸ h.2)

end Request.Fits

/-! ## One request -/

/-- A request that does not fit is refused and changes nothing. -/
theorem request_of_not_fits (h : ¬r.Fits) :
    image.request r = (image, .error ⟨r.line, .programTooLarge⟩) := by
  have hbounds : r.offset < 0 ∨ programSize < r.offset + r.data.length := by
    unfold Request.Fits Request.stop at h
    omega
  rw [request, (write_eq_error_iff _ _ _ _).mpr ⟨rfl, hbounds⟩]

/-- A request that fits is written at its offset. -/
theorem request_of_fits (h : r.Fits) :
    image.request r = (image.put ⟨r.offset.toNat, r.data⟩, .ok ()) := by
  rw [request, write_eq_ok_iff.mpr ⟨_, h.offset_eq, h.room, rfl⟩]

/-- An accepted request replaces the bytes that it covers, and as many. -/
theorem memory_request (hsize : image.memory.size = programSize) (h : r.Fits) :
    (image.request r).1.memory =
      image.memory.splice r.offset r.stop r.data.toArray := by
  rw [request_of_fits h, h.stop_eq, h.offset_eq]
  exact Bytes.overwrite_eq_splice _ (hsize ▸ h.room)

/-- A request keeps the size of program memory. -/
theorem size_request (image : Image) (r : Request) :
    (image.request r).1.memory.size = image.memory.size := by
  by_cases hfits : r.Fits
  · rw [request_of_fits hfits]
    exact Bytes.size_overwrite _ _ _
  · rw [request_of_not_fits hfits]

/-- An accepted request decides the byte at each place that it covers. -/
theorem getElem?_request_of_covers (hi : i < image.memory.size) (hfits : r.Fits)
    (hcovers : r.Covers i) :
    (image.request r).1.memory[i]? = r.data[((i : Int) - r.offset).toNat]? := by
  obtain ⟨hstart, hstop⟩ := hcovers
  rw [hfits.offset_eq] at hstart
  rw [hfits.stop_eq] at hstop
  have hinside : r.offset.toNat ≤ i ∧ i < r.offset.toNat + r.data.length := by omega
  have hplace : ((i : Int) - r.offset).toNat = i - r.offset.toNat := by
    rw [hfits.offset_eq]
    omega
  rw [request_of_fits hfits, put, Bytes.getElem?_overwrite, if_pos ⟨hi, hinside⟩, hplace]

/-- A request leaves the bytes that it does not cover. -/
theorem getElem?_request_of_not_covers (h : r.Fits → ¬r.Covers i) :
    (image.request r).1.memory[i]? = image.memory[i]? := by
  by_cases hfits : r.Fits
  · have houtside : ¬(i < image.memory.size ∧ r.offset.toNat ≤ i ∧
        i < r.offset.toNat + r.data.length) := by
      rintro ⟨-, hstart, hstop⟩
      refine h hfits ⟨?_, ?_⟩
      · rw [hfits.offset_eq]
        exact Int.ofNat_le.mpr hstart
      · rw [hfits.stop_eq]
        exact Int.ofNat_lt.mpr hstop
    rw [request_of_fits hfits, put, Bytes.getElem?_overwrite, if_neg houtside]
  · rw [request_of_not_fits hfits]

/-- The length in use reaches to the end of every request that fits. -/
theorem length_request (image : Image) (r : Request) :
    (image.request r).1.length =
      if r.Fits then max image.length r.stop.toNat else image.length := by
  split
  · next hfits =>
    rw [request_of_fits hfits, put, hfits.stop_eq, Int.toNat_natCast]
  · next hfits => rw [request_of_not_fits hfits]

/-! ## Requests one after the other -/

/-- The latest request is written to what the others leave. -/
theorem after_concat (image : Image) (requests : List Request) (r : Request) :
    image.after (requests ++ [r]) = ((image.after requests).request r).1 := by
  rw [after, List.foldl_append]
  rfl

/-- Requests keep the size of program memory. -/
theorem size_after (image : Image) (requests : List Request) :
    (image.after requests).memory.size = image.memory.size := by
  induction requests using List.reverseRecOn with
  | nil => rfl
  | append_singleton requests r ih => rw [after_concat, size_request, ih]

/-- A later request that does not cover a byte leaves it the last one. -/
theorem LastByte.concat_of_not_covers (h : LastByte requests i x) (hr : r.Fits → ¬r.Covers i) :
    LastByte (requests ++ [r]) i x := by
  obtain ⟨before, s, later, rfl, hfits, hcovers, hlater, hx⟩ | ⟨hnone, hx⟩ := h
  · have hlater' := List.forall_mem_append.mpr ⟨hlater, List.forall_mem_singleton.mpr hr⟩
    exact .inl ⟨before, s, later ++ [r], List.append_assoc _ _ _, hfits, hcovers, hlater', hx⟩
  · exact .inr ⟨List.forall_mem_append.mpr ⟨hnone, List.forall_mem_singleton.mpr hr⟩, hx⟩

/-- Each place of an image that began with zeros holds the byte of the last accepted request. -/
theorem exists_lastByte (requests : List Request) (hi : i < programSize) :
    ∃ x, (({} : Image).after requests).memory[i]? = some x ∧ LastByte requests i x := by
  induction requests using List.reverseRecOn with
  | nil =>
    refine ⟨0, ?_, .inr ⟨nofun, rfl⟩⟩
    exact Array.getElem?_replicate.trans (if_pos hi)
  | append_singleton requests r ih =>
    rw [after_concat]
    by_cases hr : r.Fits ∧ r.Covers i
    · obtain ⟨hfits, hcovers⟩ := hr
      have hsize : (({} : Image).after requests).memory.size = programSize :=
        (size_after _ _).trans Array.size_replicate
      have hinside : ((i : Int) - r.offset).toNat < r.data.length := by
        unfold Request.Covers Request.stop at hcovers
        omega
      have hbyte := List.getElem?_eq_getElem hinside
      have hplace : i < (({} : Image).after requests).memory.size := by rwa [hsize]
      refine ⟨_, (getElem?_request_of_covers hplace hfits hcovers).trans hbyte, ?_⟩
      exact .inl ⟨requests, r, [], rfl, hfits, hcovers, nofun, hbyte⟩
    · have hmiss : r.Fits → ¬r.Covers i := fun hfits hcovers => hr ⟨hfits, hcovers⟩
      obtain ⟨x, hx, hlast⟩ := ih
      exact ⟨x, (getElem?_request_of_not_covers hmiss).trans hx, hlast.concat_of_not_covers hmiss⟩

/-- No accepted request goes beyond the length. -/
theorem stop_le_length (hr : r ∈ requests) (hfits : r.Fits) (image : Image) :
    r.stop ≤ (image.after requests).length := by
  induction requests using List.reverseRecOn with
  | nil => exact absurd hr List.not_mem_nil
  | append_singleton requests s ih =>
    rw [after_concat, length_request]
    obtain hr | hr := List.mem_append.mp hr
    · have hbefore := ih hr
      split <;> omega
    · rw [List.mem_singleton.mp hr] at hfits ⊢
      rw [if_pos hfits]
      omega

/-- Some accepted request ends at the length, unless the image had it before. -/
theorem length_eq_stop (image : Image) (requests : List Request) :
    (image.after requests).length = image.length ∨
      ∃ r ∈ requests, r.Fits ∧ (image.after requests).length = r.stop := by
  induction requests using List.reverseRecOn with
  | nil => exact .inl rfl
  | append_singleton requests r ih =>
    rw [after_concat, length_request]
    by_cases hgrows : r.Fits ∧ (image.after requests).length < r.stop
    · obtain ⟨hfits, hlt⟩ := hgrows
      rw [if_pos hfits]
      exact .inr ⟨r, List.mem_append_right _ (.head _), hfits, by omega⟩
    · have hsame : (if r.Fits then max (image.after requests).length r.stop.toNat
          else (image.after requests).length) = (image.after requests).length := by
        split
        · next hfits =>
          have hle : ¬(image.after requests).length < r.stop := fun hlt => hgrows ⟨hfits, hlt⟩
          omega
        · rfl
      rw [hsame]
      exact ih.imp_right fun ⟨s, hs, hend⟩ => ⟨s, List.mem_append_left _ hs, hend⟩

/-- A new image answers any requests as one of fixed size in which the last accepted request wins. A
request is refused, for its line, exactly if it leaves program memory, and then nothing changes; if
it is accepted it replaces the bytes that it covers. Each byte is that of the last accepted request
that covers it, or zero. The length is the furthest end of an accepted request, or zero, and from
there on all bytes are zero. -/
theorem holds_last_accepted (requests : List Request) :
    let image := ({} : Image).after requests
    image.memory.size = 0xE00 ∧
      (∀ r : Request,
        if r.offset < 0 ∨ 0xE00 < r.offset + r.data.length then
          image.request r = (image, .error ⟨r.line, .programTooLarge⟩)
        else (image.request r).2 = .ok () ∧ (image.request r).1.memory =
          image.memory.splice r.offset (r.offset + r.data.length) r.data.toArray) ∧
      (∀ i < 0xE00, ∃ x, image.memory[i]? = some x ∧ LastByte requests i x) ∧
      IsGreatest {n : Nat | n = 0 ∨ ∃ r ∈ requests, r.Fits ∧ n = r.stop} image.length ∧
      ∀ i < 0xE00, image.length ≤ i → image.memory[i]? = some 0 := by
  intro image
  have hsize : image.memory.size = programSize := (size_after _ _).trans Array.size_replicate
  refine ⟨hsize, fun r => ?_, fun i => exists_lastByte requests, ⟨?_, ?_⟩, fun i hi hbehind => ?_⟩
  · split
    · next hleaves =>
      have hfits : ¬r.Fits := fun h => hleaves.elim (Int.not_lt.mpr h.1) (Int.not_lt.mpr h.2)
      exact request_of_not_fits hfits
    · next hleaves =>
      obtain ⟨hstart, hstop⟩ := not_or.mp hleaves
      have hfits : r.Fits := ⟨Int.not_lt.mp hstart, Int.not_lt.mp hstop⟩
      exact ⟨congrArg Prod.snd (request_of_fits hfits), memory_request hsize hfits⟩
  · exact length_eq_stop {} requests
  · rintro n (rfl | ⟨r, hr, hfits, hn⟩)
    · exact Nat.zero_le _
    · have hle := stop_le_length hr hfits {}
      rw [← hn] at hle
      exact Int.ofNat_le.mp hle
  · obtain ⟨x, hx, ⟨before, r, later, hsplit, hfits, hcovers, -⟩ | ⟨-, rfl⟩⟩ :=
      exists_lastByte requests hi
    · -- an accepted request that covers the place would end behind it
      have hr : r ∈ requests := hsplit ▸ List.mem_append_right _ (.head _)
      have hle := stop_le_length hr hfits {}
      have hlt := hcovers.2
      change image.length ≤ i at hbehind
      change r.stop ≤ image.length at hle
      omega
    · exact hx

/-- Two requests that overlap and two that leave program memory on either side. -/
theorem holds_last_accepted_overlap :
    let requests : List Request := [⟨4, [1, 2], 1⟩, ⟨-1, [7, 7], 2⟩, ⟨5, [9], 3⟩, ⟨0xE00, [8], 4⟩]
    let image := ({} : Image).after requests
    image.length = 6 ∧
      (∃ x, image.memory[5]? = some x ∧ LastByte requests 5 x) ∧ image.memory[5]? = some 9 ∧
      image.memory[6]? = some 0 ∧
      image.request ⟨-1, [7, 7], 2⟩ = (image, .error ⟨2, .programTooLarge⟩) := by
  intro requests image
  obtain ⟨-, hanswer, hbyte, -, hbehind⟩ := holds_last_accepted requests
  have hlength : image.length = 6 := by decide +kernel
  have hlast : image.memory[5]? = some 9 := by decide +kernel
  have hrefused := hanswer ⟨-1, [7, 7], 2⟩
  rw [if_pos (.inl (by decide))] at hrefused
  exact ⟨hlength, hbyte 5 (by decide), hlast, hbehind 6 (by decide) (Nat.le_of_eq hlength),
    hrefused⟩

end Image

end SuperChip
