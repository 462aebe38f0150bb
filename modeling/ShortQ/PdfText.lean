import ShortQ.DecimalText

/-! # The PDF of a QR code

`imagePDF`: objects written one after the other, a table of their offsets and a trailer. The JPEG
is what the encoder returned. -/
namespace PdfText

open DecimalText
open GoText
open GoTime (digits)

/-- The verb `%d`. -/
def intText (i : ℤ) : Str := lit (toString i)

/-- The buffer, with the offsets of the objects written so far. -/
structure Writer where
  out : Str
  offsets : List ℕ

def objectLine (k : ℕ) : Str := intText k ++ lit " 0 obj\n"

/-- One round of the loop over the objects. -/
def writeObject (w : Writer) (object : Str) : Writer where
  out := w.out ++ objectLine (w.offsets.length + 1) ++ object ++ lit "\nendobj\n"
  offsets := w.offsets ++ [w.out.length]

def writeObjects (objects : List Str) : Writer :=
  objects.foldl writeObject ⟨lit "%PDF-1.4\n", []⟩

/-- The line of an object in use. -/
def xrefEntry (offset : ℕ) : Str := digits 10 offset ++ lit " 00000 n \n"

def xrefTable (size : ℕ) (offsets : List ℕ) : Str :=
  lit "xref\n0 " ++ intText size ++ lit "\n0000000000 65535 f \n" ++ offsets.flatMap xrefEntry

def trailer (size xref : ℕ) : Str :=
  lit "trailer\n<< /Size " ++ intText size ++ lit " /Root 1 0 R >>\nstartxref\n" ++ intText xref ++
    lit "\n%%EOF\n"

def writePDF (objects : List Str) : Str :=
  let w := writeObjects objects
  w.out ++ xrefTable (objects.length + 1) w.offsets ++ trailer (objects.length + 1) w.out.length

def content (width height : Int64) : Str :=
  lit "q\n" ++ intText width.toInt ++ lit " 0 0 " ++ intText height.toInt ++
    lit " 0 0 cm\n/Im0 Do\nQ\n"

def imageObjects (jpegData : Str) (width height : Int64) : List Str :=
  [lit "<< /Type /Catalog /Pages 2 0 R >>",
    lit "<< /Type /Pages /Kids [3 0 R] /Count 1 >>",
    lit "<< /Type /Page /Parent 2 0 R /MediaBox [0 0 " ++ intText width.toInt ++ lit " " ++
      intText height.toInt ++
      lit "] /Resources << /XObject << /Im0 4 0 R >> >> /Contents 5 0 R >>",
    lit "<< /Type /XObject /Subtype /Image /Width " ++ intText width.toInt ++ lit " /Height " ++
      intText height.toInt ++
      lit " /ColorSpace /DeviceRGB /BitsPerComponent 8 /Filter /DCTDecode /Length " ++
      intText jpegData.length ++ lit " >>\nstream\n" ++ (jpegData ++ lit "\nendstream"),
    lit "<< /Length " ++ intText (content width height).length ++ lit " >>\nstream\n" ++
      content width height ++ lit "endstream"]

/-- `imagePDF` of an image and the outcome of `jpeg.Encode`. -/
def imagePDF (encoded : Option Str) (width height : Int64) : Option Str :=
  encoded.map fun jpegData => writePDF (imageObjects jpegData width height)

/-! ## A file whose table agrees with its objects -/

/-- The object stands in the body where its line starts. -/
structure StandsAt (body : Str) (k : ℕ) (object : Str) (offset : ℕ) : Prop where
  place : ∃ before after, body = before ++ objectLine k ++ object ++ lit "\nendobj\n" ++ after ∧
    before.length = offset ∧ before.getLast? = some 10

/-- The ten digits of an entry read as the offset, and the rest of the entry is fixed. -/
structure Holds (entry : Str) (offset : ℕ) : Prop where
  reads : ∃ number, entry = number ++ lit " 00000 n \n" ∧ decimal number = some offset
  width : entry.length = 20 ↔ offset < 10 ^ 10

/-- Offsets, `startxref` and `Size` of a file agree with what the file holds. -/
structure Consistent (objects : List Str) (offsets : List ℕ) (file : Str) : Prop where
  parts : ∃ body, file = body ++ xrefTable (objects.length + 1) offsets ++
    trailer (objects.length + 1) body.length ∧
      ∀ (k : ℕ) (object : Str), objects[k]? = some object →
        ∃ offset, offsets[k]? = some offset ∧ StandsAt body (k + 1) object offset
  counted : offsets.length = objects.length
  entries : ∀ offset ∈ offsets, Holds (xrefEntry offset) offset

/-- A stream announces the bytes between its first newline and its end. -/
def Announces (object data ending : Str) : Prop :=
  ∃ dictionary, object = dictionary ++ lit "/Length " ++ intText data.length ++
    lit " >>\nstream\n" ++ data ++ ending

/-! The loop over the objects. -/

theorem stands_append {body : Str} {k offset : ℕ} {object : Str}
    (h : StandsAt body k object offset) (more : Str) : StandsAt (body ++ more) k object offset := by
  obtain ⟨before, after, hbody, hlength, hline⟩ := h.place
  exact ⟨before, after ++ more, by rw [hbody, List.append_assoc _ after more], hlength, hline⟩

/-- The buffer ends a line, and what was written stands where the offsets say. -/
structure Written (objects : List Str) (w : Writer) : Prop where
  counted : w.offsets.length = objects.length
  line : w.out.getLast? = some 10
  stands : ∀ (k : ℕ) (object : Str), objects[k]? = some object →
    ∃ offset, w.offsets[k]? = some offset ∧ StandsAt w.out (k + 1) object offset

theorem written_object {objects : List Str} {w : Writer} (h : Written objects w) (object : Str) :
    Written (objects ++ [object]) (writeObject w object) := by
  constructor
  · rw [writeObject, List.length_append, List.length_append, h.counted]
    rfl
  · rw [writeObject, List.getLast?_append_of_ne_nil _ (by decide)]
    decide
  · intro k found hfound
    rw [List.getElem?_append] at hfound
    split at hfound
    · obtain ⟨offset, hoffset, hstands⟩ := h.stands k found hfound
      refine ⟨offset, ?_, ?_⟩
      · rw [writeObject, List.getElem?_append_left (by rw [h.counted]; assumption)]
        exact hoffset
      · rw [writeObject, List.append_assoc, List.append_assoc]
        exact stands_append hstands _
    · rename_i hk
      have hlast : k = objects.length := by
        rw [List.getElem?_singleton] at hfound
        split at hfound
        · omega
        · cases hfound
      rw [hlast, Nat.sub_self] at hfound
      cases hfound
      refine ⟨w.out.length, ?_, ⟨w.out, [], ?_, rfl, h.line⟩⟩
      · rw [writeObject, hlast, ← h.counted, List.getElem?_append_right (Nat.le_refl _),
          Nat.sub_self]
        rfl
      · rw [writeObject, hlast, h.counted, List.append_nil]

theorem written_objects (objects : List Str) : Written objects (writeObjects objects) := by
  unfold writeObjects
  induction objects using List.reverseRecOn with
  | nil =>
    constructor
    · rfl
    · decide
    · intro k object h
      cases h
  | append_singleton objects object ih =>
    rw [List.foldl_append]
    exact written_object ih object

/-! The table. -/

theorem entry_length (offset : ℕ) :
    (xrefEntry offset).length = (digits 10 offset).length + 10 := by
  rw [xrefEntry, List.length_append]
  rfl

/-- A number of more than ten digits does not fit. -/
theorem digits_wide {n : ℕ} (h : 10 ^ 10 ≤ n) : 10 < (digits 10 (n : ℤ)).length := by
  by_contra hle
  have hvalue := value_lt fun b hb => digit_of_mem_digits (k := 10) (n := n) hb
  rw [value_digits] at hvalue
  have hpow : 10 ^ (digits 10 (n : ℤ)).length ≤ 10 ^ 10 :=
    Nat.pow_le_pow_right (by decide) (Nat.le_of_not_lt hle)
  omega

theorem holds_entry (offset : ℕ) : Holds (xrefEntry offset) offset := by
  constructor
  · exact ⟨digits 10 offset, rfl, decimal_digits 10 offset⟩
  · rw [entry_length]
    constructor
    · intro hlength
      by_contra hge
      have hwide := digits_wide (Nat.le_of_not_lt hge)
      omega
    · intro hlt
      rw [length_digits (by decide) hlt]

theorem consistent_writePDF (objects : List Str) :
    Consistent objects (writeObjects objects).offsets (writePDF objects) := by
  have hwritten := written_objects objects
  exact ⟨⟨(writeObjects objects).out, rfl, hwritten.stands⟩, hwritten.counted,
    fun offset _ => holds_entry offset⟩

/-! The five objects. -/

theorem repr_length {n : ℕ} (h : n < 10 ^ 19) : (lit (Nat.repr n)).length ≤ 19 := by
  rw [lit_repr, List.length_map]
  exact (Nat.length_toDigits_le_iff (by decide) (by decide)).mpr h

/-- A number of the machine takes twenty bytes at most. -/
theorem intText_length (x : Int64) : (intText x.toInt).length ≤ 20 := by
  have hlow := x.le_toInt
  have hhigh := x.toInt_lt
  cases hx : x.toInt with
  | ofNat n =>
    rw [hx, Int.ofNat_eq_natCast] at hhigh
    have hlength := repr_length (n := n) (by omega)
    exact Nat.le_succ_of_le hlength
  | negSucc n =>
    rw [hx] at hlow
    have hlength := repr_length (n := n + 1) (by omega)
    have htext : intText (Int.negSucc n) = lit "-" ++ lit (Nat.repr (n + 1)) := by
      have hstring : toString (Int.negSucc n) = "-" ++ Nat.repr (n + 1) := rfl
      rw [intText, hstring, lit, lit, lit, String.toList_append, List.flatMap_append]
    rw [htext, List.length_append]
    exact Nat.add_le_add (Nat.le_refl 1) hlength

theorem offsets_five (a b c d e : Str) : (writeObjects [a, b, c, d, e]).offsets =
    [9, 25 + a.length, 41 + a.length + b.length, 57 + a.length + b.length + c.length,
      73 + a.length + b.length + c.length + d.length] := by
  have hline : (objectLine 1).length = 8 ∧ (objectLine 2).length = 8 ∧ (objectLine 3).length = 8 ∧
      (objectLine 4).length = 8 := by
    decide
  have hend : (lit "\nendobj\n").length = 8 ∧ (lit "%PDF-1.4\n").length = 9 := by decide
  simp [writeObjects, writeObject, hline, hend]
  omega

/-- Only the last object can lie beyond the reach of ten digits. -/
theorem image_offsets (jpegData : Str) (width height : Int64) :
    ∃ a b c d e, (writeObjects (imageObjects jpegData width height)).offsets = [a, b, c, d, e] ∧
      (a < 10 ^ 10 ∧ b < 10 ^ 10 ∧ c < 10 ^ 10 ∧ d < 10 ^ 10) ∧ jpegData.length < e := by
  have hwidth := intText_length width
  have hheight := intText_length height
  refine ⟨_, _, _, _, _, offsets_five _ _ _ _ _, ?_, ?_⟩
  · have hfixed : (lit "<< /Type /Catalog /Pages 2 0 R >>").length ≤ 80 ∧
        (lit "<< /Type /Pages /Kids [3 0 R] /Count 1 >>").length ≤ 80 ∧
        (lit "<< /Type /Page /Parent 2 0 R /MediaBox [0 0 ").length ≤ 80 ∧
        (lit " ").length ≤ 80 ∧
        (lit "] /Resources << /XObject << /Im0 4 0 R >> >> /Contents 5 0 R >>").length ≤ 80 := by
      decide
    simp only [List.length_append]
    omega
  · simp only [List.length_append]
    omega

theorem announces_image (jpegData : Str) (width height : Int64) :
    ∃ image, (imageObjects jpegData width height)[3]? = some image ∧
      Announces image jpegData (lit "\nendstream") := by
  have hsplit :
      lit " /ColorSpace /DeviceRGB /BitsPerComponent 8 /Filter /DCTDecode /Length "
        = lit " /ColorSpace /DeviceRGB /BitsPerComponent 8 /Filter /DCTDecode " ++ lit "/Length " :=
    rfl
  refine ⟨_, rfl, lit "<< /Type /XObject /Subtype /Image /Width " ++ intText width.toInt ++
    lit " /Height " ++ intText height.toInt ++
      lit " /ColorSpace /DeviceRGB /BitsPerComponent 8 /Filter /DCTDecode ", ?_⟩
  rw [hsplit]
  simp only [List.append_assoc]

theorem announces_content (jpegData : Str) (width height : Int64) :
    ∃ contents, (imageObjects jpegData width height)[4]? = some contents ∧
      Announces contents (content width height) (lit "endstream") := by
  have hsplit : lit "<< /Length " = lit "<< " ++ lit "/Length " := rfl
  refine ⟨_, rfl, lit "<< ", ?_⟩
  rw [hsplit]

/-- The file `imagePDF` returns is consistent; the entries of the first four objects have twenty
bytes, that of the last object has them while its offset has ten digits; and the two streams
announce their lengths. -/
theorem imagePDF_consistent (jpegData : Str) (width height : Int64) :
    ∃ file offsets, imagePDF (some jpegData) width height = some file ∧
      Consistent (imageObjects jpegData width height) offsets file ∧
      (∀ offset ∈ offsets.take 4, (xrefEntry offset).length = 20) ∧
      (∃ image, (imageObjects jpegData width height)[3]? = some image ∧
        Announces image jpegData (lit "\nendstream")) ∧
      ∃ contents, (imageObjects jpegData width height)[4]? = some contents ∧
        Announces contents (content width height) (lit "endstream") := by
  refine ⟨_, (writeObjects (imageObjects jpegData width height)).offsets, rfl,
    consistent_writePDF _, ?_, announces_image jpegData width height,
    announces_content jpegData width height⟩
  obtain ⟨a, b, c, d, e, hoffsets, ⟨ha, hb, hc, hd⟩, -⟩ := image_offsets jpegData width height
  rw [hoffsets]
  intro offset hoffset
  apply (holds_entry offset).width.mpr
  simp only [List.take_succ_cons, List.take_zero, List.mem_cons, List.not_mem_nil, or_false]
    at hoffset
  rcases hoffset with rfl | rfl | rfl | rfl
  · exact ha
  · exact hb
  · exact hc
  · exact hd

/-- A JPEG just below the bound pushes the last object beyond it. -/
theorem wide_entry {jpegData : Str} (h : jpegData.length = 10 ^ 10 - 1) (width height : Int64) :
    ¬ ∀ offset ∈ (writeObjects (imageObjects jpegData width height)).offsets,
      (xrefEntry offset).length = 20 := by
  intro hall
  obtain ⟨a, b, c, d, e, hoffsets, -, he⟩ := image_offsets jpegData width height
  have hlast : e ∈ (writeObjects (imageObjects jpegData width height)).offsets := by
    rw [hoffsets]
    simp
  have hlt := (holds_entry e).width.mp (hall e hlast)
  omega

/-- A payload of `10 ^ 10 - 1` bytes: the entry of the last object is longer than twenty bytes. -/
theorem long_jpeg_entry : (List.replicate (10 ^ 10 - 1) (0 : UInt8)).length < 10 ^ 10 ∧
    ¬ ∀ offset ∈ (writeObjects (imageObjects (List.replicate (10 ^ 10 - 1) 0) 64 64)).offsets,
      (xrefEntry offset).length = 20 := by
  constructor
  · rw [List.length_replicate]
    decide
  · exact wide_entry List.length_replicate 64 64

end PdfText
