import Arbiter.Proofs.Message.Truncation

/-!
Writing in place. The length of a message is added up first, room for it is made and filled with
zeros, and then its fields and regions are put into their places one by one, each against the
bounds of the message. Where the parts lie one behind the other, with nothing but terminators
between them, every one of them has room, and the message is the composed one.
-/

namespace Arbiter

/-- What is put into its place in one step: a field, or bytes of a region. -/
inductive Part where
  | u32 (field : Field) (n : UInt32)
  | i32 (field : Field) (n : Int32)
  | u64 (field : Field) (n : UInt64)
  | size (field : Field) (n : Nat) (region : String)
  | region (base start : Nat) (bytes : Bytes)

namespace Part

def start : Part → Nat
  | u32 field _ | i32 field _ | u64 field _ | size field _ _ => field.offset
  | region base start _ => base + start

def bytes : Part → Bytes
  | u32 _ n => u32Bytes n
  | i32 _ n => i32Bytes n
  | u64 _ n => u64Bytes n
  | size _ n _ => Message.sizeBytes n
  | region _ _ bytes => bytes

def width : Part → Nat
  | u32 _ _ | i32 _ _ | size _ _ _ => 4
  | u64 _ _ => 8
  | region _ _ bytes => bytes.length

def Small : Part → Prop
  | size _ n _ => n ≤ Message.maxSize
  | _ => True

theorem length_bytes (p : Part) : p.bytes.length = p.width := by
  cases p with
  | u32 => exact length_u32Bytes _
  | i32 => exact length_i32Bytes _
  | u64 => exact length_u64Bytes _
  | size => exact BigEndian.length_encode _ _
  | region => rfl

end Part

/-- How a message is written: what its length is the sum of, and what is put into it. -/
structure Plan where
  opcode : Opcode
  sizes : List Nat
  parts : List Part

namespace Message

def size32 (n : Nat) (region : String) : Except Fault UInt32 :=
  if n < UInt32.size then .ok (UInt32.ofNat n) else .error (.regionTooLarge region)

def addLength (sum n : Nat) : Except Fault Nat :=
  if sum + n < UInt64.size then .ok (sum + n) else .error (.tooLarge (UInt64.size - 1))

def total (sizes : List Nat) : Except Fault Nat := sizes.foldlM addLength 0

def terminatedSize (text : Bytes) : Nat := min (text.length + 1) (UInt64.size - 1)

def writePart (m : Message) : Part → Except Fault Message
  | .u32 field n => m.writeU32 field.offset n
  | .i32 field n => m.writeI32 field.offset n
  | .u64 field n => m.writeU64 field.offset n
  | .size field n region => do m.writeU32 field.offset (← size32 n region)
  | .region base start bytes => m.writeRegion base start bytes

end Message

open Message in
def Plan.place (p : Plan) : Except Fault Message := do
  let m ← withOpcode p.opcode.code (← total p.sizes)
  return (← p.parts.foldlM writePart m).sealed

/-- The parts lie one behind the other from the place on and spell the bytes; where no part lies
there is a single zero. -/
inductive Tiles : Nat → List Part → Bytes → Prop where
  | nil {place} : Tiles place [] []
  | part {place p parts rest} (hstart : p.start = place) (hsmall : p.Small)
      (h : Tiles (place + p.width) parts rest) : Tiles place (p :: parts) (p.bytes ++ rest)
  | gap {place parts rest} (h : Tiles (place + 1) parts rest) : Tiles place parts (0 :: rest)

theorem Tiles.last {place : Nat} {p : Part} (hstart : p.start = place) (hsmall : p.Small) :
    Tiles place [p] p.bytes := by
  rw [← List.append_nil p.bytes]
  exact .part hstart hsmall .nil

namespace Message

variable {m : Message} {front bytes : Bytes} {n : Nat}

theorem foldlM_addLength {sizes : List Nat} {sum : Nat} (h : sum + sizes.sum < UInt64.size) :
    sizes.foldlM addLength sum = .ok (sum + sizes.sum) := by
  induction sizes generalizing sum with
  | nil => rfl
  | cons n sizes ih =>
    rw [List.sum_cons, ← Nat.add_assoc] at h
    have hstep : addLength sum n = .ok (sum + n) :=
      if_pos (Nat.lt_of_le_of_lt (Nat.le_add_right _ _) h)
    rw [List.foldlM_cons, hstep, ok_bind, ih h, List.sum_cons, Nat.add_assoc]

theorem total_eq {sizes : List Nat} (h : sizes.sum < UInt64.size) :
    total sizes = .ok sizes.sum := by
  rw [← Nat.zero_add sizes.sum] at h ⊢
  exact foldlM_addLength h

theorem terminatedSize_eq {text : Bytes} (h : text.length + 1 < UInt64.size) :
    terminatedSize text = text.length + 1 :=
  Nat.min_eq_left (Nat.le_sub_one_of_lt h)

theorem size32_eq (region : String) (h : n < UInt32.size) :
    ∃ word, size32 n region = .ok word ∧ u32Bytes word = sizeBytes n := by
  refine ⟨_, if_pos h, ?_⟩
  rw [u32Bytes, UInt32.toNat_ofNat_of_lt' h, sizeBytes]

theorem toBytes_overwrite_append {old back : Bytes} (hm : m.toBytes = front ++ (old ++ back))
    (hlength : old.length = bytes.length) :
    (m.overwrite front.length bytes).toBytes = front ++ (bytes ++ back) := by
  have hbytes : m.bytes = (front ++ (old ++ back)).toArray := by
    rw [← hm]
    rfl
  have hback : back.take (front.length + (old.length + back.length) - (front.length + old.length)) =
      back :=
    List.take_of_length_le (by omega)
  simp [overwrite, toBytes, hbytes, ← hlength, hback]

def Filled (m : Message) (front : Bytes) (n : Nat) : Prop :=
  m.toBytes = front ++ List.replicate n 0

namespace Filled

theorem size (h : m.Filled front n) : m.size = front.length + n := by
  rw [size_eq_length, h, List.length_append, List.length_replicate]

theorem skip (h : m.Filled front (n + 1)) : m.Filled (front ++ [0]) n := by
  rw [Filled, h, List.append_assoc]
  rfl

theorem writeField (h : m.Filled front (bytes.length + n)) (hn : trailerSize ≤ n) :
    ∃ m', m.writeField ⟨front.length, bytes.length⟩ bytes = .ok m' ∧
      m'.Filled (front ++ bytes) n := by
  have hfield : m.HasField ⟨front.length, bytes.length⟩ := by
    rw [HasField, h.size, ← Nat.add_assoc]
    exact Nat.add_le_add_left hn _
  refine ⟨_, if_pos hfield, ?_⟩
  rw [Filled, List.append_assoc]
  apply toBytes_overwrite_append
  · rw [h, List.replicate_append_replicate]
  · exact List.length_replicate

theorem writePart {p : Part} (h : m.Filled front (p.width + n)) (hn : trailerSize ≤ n)
    (hstart : p.start = front.length) (hsmall : p.Small) (hmax : m.size ≤ maxSize) :
    ∃ m', m.writePart p = .ok m' ∧ m'.Filled (front ++ p.bytes) n := by
  rw [← p.length_bytes] at h
  obtain ⟨m', hwrite, hm'⟩ := h.writeField hn
  refine ⟨m', ?_, hm'⟩
  rw [← hwrite, ← hstart, p.length_bytes]
  cases p with
  | u32 => rfl
  | i32 => rfl
  | u64 => rfl
  | size field n region =>
    have hfits : n < UInt32.size := Nat.lt_of_le_of_lt hsmall (by decide)
    obtain ⟨word, hword, hbytes⟩ := size32_eq region hfits
    rw [Message.writePart, hword, ok_bind, writeU32, hbytes]
    rfl
  | region base start bytes =>
    have hroom : base + start < UInt64.size := by
      have hsize := h.size
      simp only [Part.start, maxSize] at hstart hmax
      simp only [UInt64.size]
      omega
    rw [Message.writePart, writeRegion, if_pos hroom]
    rfl

end Filled

end Message

theorem Tiles.writes {place : Nat} {parts : List Part} {fields : Bytes}
    (ht : Tiles place parts fields) {m : Message} {front : Bytes} (hplace : front.length = place)
    (hm : m.Filled front (fields.length + Message.trailerSize))
    (hmax : place + fields.length + Message.trailerSize ≤ Message.maxSize) :
    ∃ m', parts.foldlM Message.writePart m = .ok m' ∧
      m'.Filled (front ++ fields) Message.trailerSize := by
  -- What is in front of the next part is written, and what is behind its place is still zero.
  induction ht generalizing m front with
  | nil => exact ⟨m, rfl, by rwa [List.append_nil, ← Nat.zero_add Message.trailerSize]⟩
  | @part place p parts rest hstart hsmall h ih =>
    rw [List.length_append, p.length_bytes, Nat.add_assoc] at hm
    rw [List.length_append, p.length_bytes] at hmax
    have hsize : m.size ≤ Message.maxSize := by
      rw [hm.size, hplace]
      omega
    have hnext : (front ++ p.bytes).length = place + p.width := by
      rw [List.length_append, p.length_bytes, hplace]
    obtain ⟨m', hwrite, hm'⟩ :=
      hm.writePart (Nat.le_add_left _ _) (hstart.trans hplace.symm) hsmall hsize
    rw [List.foldlM_cons, hwrite, ok_bind, ← List.append_assoc]
    exact ih hnext hm' (by omega)
  | @gap place parts rest h ih =>
    rw [List.length_cons, Nat.add_right_comm] at hm
    rw [List.length_cons] at hmax
    have hnext : (front ++ [0]).length = place + 1 := by
      rw [List.length_append, hplace, List.length_singleton]
    obtain ⟨m', hwrite, hm'⟩ := ih hnext hm.skip (by omega)
    rw [List.append_assoc] at hm'
    exact ⟨m', hwrite, hm'⟩

namespace Message

variable {n : Nat}

theorem filled_allocate (h : headerSize + n + trailerSize ≤ maxSize) :
    ∃ m, allocate (headerSize + n) = .ok m ∧
      m.Filled (BigEndian.encode 4 (headerSize + n + trailerSize)) (headerSize + n) := by
  obtain ⟨m, hm, hbytes⟩ := toBytes_resize ⟨#[]⟩ (Nat.le_add_right _ _) h
  refine ⟨m, hm, ?_⟩
  rw [Filled, hbytes, toBytes, List.take_nil, List.nil_append, List.drop_replicate]
  rfl

theorem filled_withOpcode (code : UInt32) (h : headerSize + n + trailerSize ≤ maxSize) :
    ∃ m, withOpcode code (headerSize + n) = .ok m ∧
      m.Filled (BigEndian.encode 4 (headerSize + n + trailerSize) ++ u32Bytes code)
        (n + trailerSize) := by
  obtain ⟨m, hm, hfilled⟩ := filled_allocate h
  have hsplit : headerSize + n = (u32Bytes code).length + (n + trailerSize) := by
    rw [length_u32Bytes, headerSize, trailerSize]
    omega
  rw [hsplit] at hfilled
  obtain ⟨m', hwrite, hm'⟩ := hfilled.writeField (Nat.le_add_left _ _)
  rw [length_u32Bytes, BigEndian.length_encode] at hwrite
  rw [← hsplit] at hm'
  refine ⟨m', ?_, hm'⟩
  rw [withOpcode, hm, ok_bind]
  exact hwrite

theorem withOpcode_eq_error (code : UInt32) (h : maxSize < headerSize + n + trailerSize) :
    withOpcode code (headerSize + n) = .error (.tooLarge (headerSize + n)) := by
  have hcheck : checkBodySize (headerSize + n) = .error (.tooLarge (headerSize + n)) := by
    rw [checkBodySize, if_neg (Nat.not_lt.mpr (Nat.le_add_right _ _)), if_pos h]
  rw [withOpcode, allocate, resize, hcheck]
  rfl

end Message

namespace Plan

open Message

variable {p : Plan} {fields : Bytes}

structure Spells (p : Plan) (fields : Bytes) : Prop where
  sizes : p.sizes.sum = headerSize + fields.length
  tiles : p.sizes.sum + trailerSize ≤ maxSize → Tiles headerSize p.parts fields

namespace Spells

variable (hp : p.Spells fields)

include hp

theorem total_eq (hword : p.sizes.sum < UInt64.size) :
    total p.sizes = .ok (headerSize + fields.length) := by
  rw [Message.total_eq hword, hp.sizes]

theorem writes {m : Message}
    (hm : withOpcode p.opcode.code (headerSize + fields.length) = .ok m) :
    ∃ m', p.parts.foldlM writePart m = .ok m' ∧
      m'.Filled (BigEndian.encode 4 (headerSize + fields.length + trailerSize) ++
        u32Bytes p.opcode.code ++ fields) trailerSize := by
  by_cases hfits : headerSize + fields.length + trailerSize ≤ maxSize
  · obtain ⟨room, hroom, hfilled⟩ := filled_withOpcode p.opcode.code hfits
    obtain rfl : room = m := Except.ok.inj (hroom.symm.trans hm)
    refine (hp.tiles (by rwa [hp.sizes])).writes ?_ hfilled hfits
    rw [List.length_append, BigEndian.length_encode, length_u32Bytes]
    rfl
  · rw [withOpcode_eq_error _ (Nat.lt_of_not_le hfits)] at hm
    cases hm

theorem place_eq_compose (hword : p.sizes.sum < UInt64.size) :
    p.place = compose p.opcode fields := by
  rw [place, hp.total_eq hword, ok_bind]
  by_cases hfits : headerSize + fields.length + trailerSize ≤ maxSize
  · obtain ⟨room, hroom, -⟩ := filled_withOpcode p.opcode.code hfits
    obtain ⟨m, hwrites, hm⟩ := hp.writes hroom
    have hmessage : m = ofBytes (BigEndian.encode 4 (headerSize + fields.length + trailerSize) ++
        u32Bytes p.opcode.code ++ fields ++ List.replicate trailerSize 0) := by
      rw [← hm]
      rfl
    rw [hroom, ok_bind, hwrites, ok_bind, compose, if_pos hfits, hmessage]
    rfl
  · rw [withOpcode_eq_error _ (Nat.lt_of_not_le hfits), compose_eq_error (Nat.lt_of_not_le hfits)]
    rfl

end Spells

end Plan

end Arbiter
