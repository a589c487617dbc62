import Arbiter.Proofs.Message.Bounds
import Arbiter.Proofs.Message.Placement

/-!
Messages edited in place. A write puts its bytes where it was told to and leaves all others as they
were, or it is refused and leaves every byte. Sealing changes the trailer alone. Resizing keeps the
bytes in their places, the old trailer among them, and declares the length anew; so a message that
was made for its length declares it for as long as nothing is written over the mark.
-/

namespace Arbiter

/-- What is written into a message in one step; a number goes to a field of its own width. -/
inductive Write where
  | u32 (offset : UInt64) (n : UInt32)
  | i32 (offset : UInt64) (n : Int32)
  | u64 (offset : UInt64) (n : UInt64)
  | region (base start : UInt64) (bytes : Bytes)

inductive Edit where
  | write (w : Write)
  | reseal
  | resize (n : UInt64)

namespace Write

def place : Write → Nat
  | u32 offset _ | i32 offset _ | u64 offset _ => offset.toNat
  | region base start _ => base.toNat + start.toNat

def bytes : Write → Bytes
  | u32 _ n => u32Bytes n
  | i32 _ n => i32Bytes n
  | u64 _ n => u64Bytes n
  | region _ _ bytes => bytes

def apply (m : Message) : Write → Except Fault Message
  | u32 offset n => m.writeU32 offset.toNat n
  | i32 offset n => m.writeI32 offset.toNat n
  | u64 offset n => m.writeU64 offset.toNat n
  | region base start bytes => m.writeRegion base.toNat start.toNat bytes

/-- The read of the same kind finds what was written. Regions are read up to the length of the
longest message, however long the one at hand is. -/
def ReadBack (m : Message) : Write → Prop
  | u32 offset n => m.u32? ⟨offset.toNat, 4⟩ = some n
  | i32 offset n => m.i32? ⟨offset.toNat, 4⟩ = some n
  | u64 offset n => m.u64? ⟨offset.toNat, 8⟩ = some n
  | region base start bytes =>
    m.region? base.toNat start.toNat bytes.length = some bytes ↔
      base.toNat + start.toNat + bytes.length ≤ 100000

end Write

/-- What an edit leaves. A write that is refused leaves the message as it was; a message that is
not resized is used up all the same. -/
def Edit.leaves (m : Message) : Edit → Option Message
  | write w => some ((w.apply m).toOption.getD m)
  | reseal => some m.sealed
  | resize n => (m.resize n.toNat).toOption

def Message.edited (m : Message) (edits : List Edit) : Option Message := edits.foldlM Edit.leaves m

namespace Message

variable {m m' : Message} {place n : Nat} {bytes : Bytes}

/-- The bytes stand at the place in `m'`, which is `m` everywhere else. -/
structure Overwritten (m m' : Message) (place : Nat) (bytes : Bytes) : Prop where
  size : m'.size = m.size
  inside {i : Nat} : i < bytes.length → m'.bytes[place + i]? = bytes[i]?
  outside {i : Nat} : i < place ∨ place + bytes.length ≤ i → m'.bytes[i]? = m.bytes[i]?
  trailer : m'.trailer = m.trailer

theorem overwritten_of_toBytes {front old back : Bytes} (hm : m.toBytes = front ++ (old ++ back))
    (hm' : m'.toBytes = front ++ (bytes ++ back)) (hlength : old.length = bytes.length)
    (hback : trailerSize ≤ back.length) : m.Overwritten m' front.length bytes := by
  have hsize : m'.size = m.size := by
    simp only [size_eq_length, hm, hm', List.length_append, hlength]
  have houtside {i : Nat} (hi : i < front.length ∨ front.length + bytes.length ≤ i) :
      m'.bytes[i]? = m.bytes[i]? := by
    rw [← getElem?_toBytes, ← getElem?_toBytes, hm, hm']
    rcases hi with hi | hi
    · rw [List.getElem?_append_left hi, List.getElem?_append_left hi]
    · have hfront : front.length ≤ i := Nat.le_of_add_right_le hi
      have hbehind : bytes.length ≤ i - front.length := Nat.le_sub_of_add_le' hi
      rw [List.getElem?_append_right hfront, List.getElem?_append_right hfront,
        List.getElem?_append_right hbehind, List.getElem?_append_right (hlength ▸ hbehind), hlength]
  refine ⟨hsize, fun {i} hi => ?_, houtside, ?_⟩
  · rw [← getElem?_toBytes, hm', List.getElem?_append_right (Nat.le_add_right ..),
      Nat.add_sub_cancel_left, List.getElem?_append_left hi]
  · have hbody : front.length + bytes.length ≤ m.bodySize := by
      rw [bodySize, size_eq_length, hm, List.length_append, List.length_append, hlength]
      omega
    rw [trailer, trailer, bodySize, hsize]
    exact slice_congr fun i hi _ => houtside (.inr (hbody.trans hi))

theorem writeField_spec (h : m.HasField ⟨place, bytes.length⟩) :
    ∃ m', m.writeField ⟨place, bytes.length⟩ bytes = .ok m' ∧ m.Overwritten m' place bytes ∧
      m'.Holds place bytes := by
  obtain ⟨front, back, hm, rfl, hback⟩ := holds_slice h
  have hlength : (m.slice front.length bytes.length).length = bytes.length :=
    length_slice (Nat.le_of_add_right_le h)
  have hm' := toBytes_overwrite_append hm hlength
  exact ⟨_, if_pos h, overwritten_of_toBytes hm hm' hlength hback, front, back, hm', rfl, hback⟩

theorem writeField_eq_ok {f : Field} :
    (∃ m', m.writeField f bytes = .ok m') ↔ m.HasField f := by
  rw [writeField]
  split <;> simp [*]

end Message

namespace Write

variable {w : Write} {m m' : Message}

theorem apply_eq (w : Write) (m : Message) :
    w.apply m = if w.place < 2 ^ 64 then m.writeField ⟨w.place, w.bytes.length⟩ w.bytes
      else .error (.tooLarge (2 ^ 64 - 1)) := by
  cases w with
  | u32 offset n =>
    rw [place, if_pos offset.toNat_lt, bytes, length_u32Bytes]
    rfl
  | i32 offset n =>
    rw [place, if_pos offset.toNat_lt, bytes, length_i32Bytes]
    rfl
  | u64 offset n =>
    rw [place, if_pos offset.toNat_lt, bytes, length_u64Bytes]
    rfl
  | region base start bytes => rfl

theorem readBack_of_holds (h : m.Holds w.place w.bytes) : w.ReadBack m := by
  cases w with
  | u32 offset n => exact h.u32?
  | i32 offset n => exact h.i32?
  | u64 offset n => exact h.u64?
  | region base start bytes =>
    have hfits : base.toNat + start.toNat + bytes.length ≤ m.bodySize :=
      Nat.le_sub_of_add_le h.fits
    have hslice : m.slice (base.toNat + start.toNat) bytes.length = bytes := h.slice_eq
    simp only [ReadBack, Message.region?, Message.HasRegion, hfits, and_true, hslice,
      Option.ite_none_right_eq_some]
    rfl

/-- A write fails and changes nothing, or it puts its bytes in their place, where they are read. -/
structure Lawful (w : Write) (m : Message) : Prop where
  outcome : (∃ fault, w.apply m = .error fault ∧ (Edit.write w).leaves m = some m) ∨
    ∃ m', w.apply m = .ok m' ∧ (Edit.write w).leaves m = some m' ∧
      m.Overwritten m' w.place w.bytes ∧ w.ReadBack m'
  succeeds : (∃ m', w.apply m = .ok m') ↔
    w.place < 2 ^ 64 ∧ w.place + w.bytes.length + 4 ≤ m.size
  tested (f : WordField) : m.size < 2 ^ 63 → f.offset.toNat = w.place →
    f.size.toNat = w.bytes.length → ((∃ m', w.apply m = .ok m') ↔ m.fieldFits f = true)

theorem leaves_of_ok (h : w.apply m = .ok m') : (Edit.write w).leaves m = some m' := by
  rw [Edit.leaves, h]
  rfl

theorem leaves_of_error {fault : Fault} (h : w.apply m = .error fault) :
    (Edit.write w).leaves m = some m := by
  rw [Edit.leaves, h]
  rfl

theorem apply_eq_ok : (∃ m', w.apply m = .ok m') ↔
    w.place < 2 ^ 64 ∧ m.HasField ⟨w.place, w.bytes.length⟩ := by
  rw [apply_eq]
  split
  · rename_i hplace
    rw [Message.writeField_eq_ok, and_iff_right hplace]
  · rename_i hplace
    refine iff_of_false ?_ fun h => hplace h.1
    rintro ⟨m', h⟩
    cases h

theorem lawful (w : Write) (m : Message) : w.Lawful m where
  outcome := by
    cases happly : w.apply m with
    | error fault => exact .inl ⟨fault, rfl, leaves_of_error happly⟩
    | ok m' =>
      refine .inr ⟨m', rfl, leaves_of_ok happly, ?_⟩
      rw [apply_eq] at happly
      split at happly
      · obtain ⟨m'', hwrite, hover, hholds⟩ :=
          Message.writeField_spec (Message.writeField_eq_ok.mp ⟨m', happly⟩)
        obtain rfl : m'' = m' := Except.ok.inj (hwrite.symm.trans happly)
        exact ⟨hover, readBack_of_holds hholds⟩
      · cases happly
  succeeds := apply_eq_ok
  tested f hm hplace hwidth := by
    have hfield : f.field = ⟨w.place, w.bytes.length⟩ := by rw [WordField.field, hplace, hwidth]
    have hword : w.place < 2 ^ 64 := hplace ▸ f.offset.toNat_lt
    rw [apply_eq_ok, and_iff_right hword, Message.fieldFits_iff hm, hfield]

end Write

namespace Message

variable {m m' : Message} {n : Nat}

theorem body_sealed (m : Message) (hsize : trailerSize ≤ m.size) :
    m.sealed.bytes.extract 0 m.bodySize = m.bytes.extract 0 m.bodySize := by
  have hbody := size_body m
  rw [sealed_eq hsize]
  generalize m.bytes.extract 0 m.bodySize = body at hbody
  rw [← hbody, Array.extract_append_left, Array.extract_size]

theorem bodySize_sealed (m : Message) : m.sealed.bodySize = m.bodySize := by
  rw [bodySize, size_sealed, bodySize]

theorem sealed_idem (m : Message) : m.sealed.sealed = m.sealed := by
  by_cases hsize : trailerSize ≤ m.size
  · rw [sealed_eq (size_sealed m ▸ hsize), bodySize_sealed, body_sealed m hsize, sealed_eq hsize]
  · have hshort : m.sealed = m := if_pos (Nat.lt_of_not_le hsize)
    rw [hshort, hshort]

theorem getElem?_sealed {i : Nat} (hi : i < m.bodySize) : m.sealed.bytes[i]? = m.bytes[i]? := by
  have hsize : trailerSize ≤ m.size := by
    rw [bodySize] at hi
    omega
  have hbody : i < (m.bytes.extract 0 m.bodySize).size := (size_body m).symm ▸ hi
  rw [sealed_eq hsize, Array.getElem?_append_left hbody, Array.getElem?_extract,
    if_pos (by simpa using hbody), Nat.zero_add]

/-- Sealing changes the last four bytes alone, and a second time nothing. -/
structure Resealed (m : Message) : Prop where
  size : m.sealed.size = m.size
  body {i : Nat} : i < m.bodySize → m.sealed.bytes[i]? = m.bytes[i]?
  short : m.size < 4 → m.sealed = m
  idem : m.sealed.sealed = m.sealed
  sealed_iff : m.sealed.Sealed ↔ 12 ≤ m.size

theorem resealed (m : Message) : m.Resealed where
  size := size_sealed m
  body hi := getElem?_sealed hi
  short hsize := if_pos hsize
  idem := sealed_idem m
  sealed_iff := ⟨fun h => size_sealed m ▸ h.1, sealed_sealed⟩

/-- A message is resized to a body of `n` bytes if it can have one: its length is declared, the
bytes keep their places, and where there were none there are zeros. -/
structure Resized (m : Message) (n : Nat) : Prop where
  succeeds : (∃ m', m.resize n = .ok m') ↔ 8 ≤ n ∧ n ≤ 99996
  size {m' : Message} : m.resize n = .ok m' → m'.size = n + 4
  mark {m' : Message} : m.resize n = .ok m' → m'.toBytes.take 4 = BigEndian.encode 4 (n + 4)
  rest {m' : Message} {i : Nat} : m.resize n = .ok m' → 4 ≤ i → i < n + 4 →
    m'.bytes[i]? = some (m.bytes[i]?.getD 0)

theorem resize_eq_ok :
    (∃ m', m.resize n = .ok m') ↔ headerSize ≤ n ∧ n + trailerSize ≤ maxSize := by
  rw [resize, checkBodySize]
  split
  · rename_i hshort
    simp [Except.map, Nat.not_le.mpr hshort]
  · split
    · rename_i hlong
      simp [Except.map, Nat.not_le.mpr hlong]
    · rename_i hshort hlong
      simp [Except.map, Nat.le_of_not_lt hshort, Nat.le_of_not_lt hlong]

theorem toBytes_of_resize (h : m.resize n = .ok m') :
    m'.toBytes = BigEndian.encode 4 (n + trailerSize) ++
      (m.toBytes.take (n + trailerSize) ++ List.replicate (n + trailerSize - m.size) 0).drop 4 := by
  obtain ⟨hmin, hmax⟩ := resize_eq_ok.mp ⟨m', h⟩
  obtain ⟨m'', hresize, hbytes⟩ := toBytes_resize m hmin hmax
  rwa [Except.ok.inj (hresize.symm.trans h)] at hbytes

theorem size_of_resize (h : m.resize n = .ok m') : m'.size = n + trailerSize := by
  rw [size_eq_length, toBytes_of_resize h]
  simp only [List.length_append, BigEndian.length_encode, List.length_drop, List.length_take,
    List.length_replicate, size_eq_length, trailerSize]
  omega

theorem getElem?_of_resize {i : Nat} (h : m.resize n = .ok m') (hmark : 4 ≤ i)
    (hi : i < n + trailerSize) : m'.bytes[i]? = some (m.bytes[i]?.getD 0) := by
  rw [← getElem?_toBytes, toBytes_of_resize h, List.getElem?_append_right (by simpa using hmark),
    BigEndian.length_encode, List.getElem?_drop, Nat.add_sub_of_le hmark]
  by_cases hold : i < m.size
  · have hkept : i < (m.toBytes.take (n + trailerSize)).length := by
      rw [List.length_take, ← size_eq_length]
      omega
    rw [List.getElem?_append_left hkept, List.getElem?_take_of_lt hi, getElem?_toBytes,
      Array.getElem?_eq_getElem hold, Option.getD_some]
  · have hbeyond : (m.toBytes.take (n + trailerSize)).length ≤ i := by
      rw [List.length_take, ← size_eq_length]
      omega
    have hzero : i - (m.toBytes.take (n + trailerSize)).length < n + trailerSize - m.size := by
      rw [List.length_take, ← size_eq_length]
      omega
    have hnone : m.bytes[i]? = none := Array.getElem?_eq_none (Nat.le_of_not_lt hold)
    rw [List.getElem?_append_right hbeyond, List.getElem?_replicate, if_pos hzero, hnone,
      Option.getD_none]

theorem resized (m : Message) (n : Nat) : m.Resized n where
  succeeds := resize_eq_ok.trans (and_congr_right fun _ => Nat.add_le_add_iff_right (n := 4))
  size h := size_of_resize h
  mark h := by
    rw [toBytes_of_resize h, List.take_left' (BigEndian.length_encode ..)]
    rfl
  rest h := getElem?_of_resize h

def DeclaresSize (m : Message) : Prop :=
  m.declaredSize?.map UInt32.toNat = some m.size ∧ 12 ≤ m.size ∧ m.size ≤ 100000

inductive Made (m : Message) : Prop where
  | allocated {bodySize : Nat} (h : allocate bodySize = .ok m)
  | stamped {code : UInt32} {bodySize : Nat} (h : withOpcode code bodySize = .ok m)
  | resized {old : Message} {bodySize : Nat} (h : old.resize bodySize = .ok m)

theorem DeclaresSize.congr (h : m.DeclaresSize) (hsize : m'.size = m.size)
    (hmark : ∀ i, i < 4 → m'.bytes[i]? = m.bytes[i]?) : m'.DeclaresSize := by
  have hslice : m'.slice 0 4 = m.slice 0 4 := slice_congr fun i _ hi => hmark i (by omega)
  have hfits : m'.HasField lengthField ↔ m.HasField lengthField := by
    rw [HasField, HasField, hsize]
  have hfield : m'.field? lengthField = m.field? lengthField := by
    simp only [field?, hfits]
    exact if_congr Iff.rfl (congrArg some hslice) rfl
  have hdeclared : m'.declaredSize? = m.declaredSize? := by
    rw [declaredSize?, declaredSize?, u32?, u32?, nat?, nat?, hfield]
  rwa [DeclaresSize, hdeclared, hsize]

theorem declaresSize_of_resize (h : m.resize n = .ok m') : m'.DeclaresSize := by
  obtain ⟨hmin, hmax⟩ := resize_eq_ok.mp ⟨m', h⟩
  have hsize := size_of_resize h
  have hword : (UInt32.ofNat (n + trailerSize)).toNat = n + trailerSize :=
    UInt32.toNat_ofNat_of_lt' (Nat.lt_of_le_of_lt hmax (by decide))
  have hbytes := toBytes_of_resize h
  rw [← hword, ← u32Bytes, hword] at hbytes
  have hmark : m'.Holds 0 (u32Bytes (UInt32.ofNat (n + trailerSize))) := by
    refine ⟨[], _, hbytes, rfl, ?_⟩
    have hlength := congrArg List.length hbytes
    rw [← size_eq_length, hsize, List.length_append, length_u32Bytes] at hlength
    rw [headerSize] at hmin
    rw [trailerSize] at hlength ⊢
    omega
  have hdeclared : m'.declaredSize? = some (UInt32.ofNat (n + trailerSize)) := hmark.u32?
  rw [DeclaresSize, hdeclared, Option.map_some, hword, hsize]
  exact ⟨rfl, Nat.add_le_add_right hmin 4, hmax⟩

end Message

namespace Write

variable {w : Write} {m m' : Message}

def SparesMark (w : Write) : Prop := 4 ≤ w.place ∨ w.bytes = []

theorem declaresSize_of_apply (h : w.apply m = .ok m') (hm : m.DeclaresSize) (hw : w.SparesMark) :
    m'.DeclaresSize := by
  obtain ⟨fault, hfault, -⟩ | ⟨m'', happly, -, hover, -⟩ := (w.lawful m).outcome
  · cases hfault.symm.trans h
  · obtain rfl : m'' = m' := Except.ok.inj (happly.symm.trans h)
    refine hm.congr hover.size fun i hi => hover.outside ?_
    rcases hw with hplace | hbytes
    · exact .inl (hi.trans_le hplace)
    · rw [hbytes, List.length_nil]
      exact Nat.lt_or_ge ..

end Write

theorem Message.Made.declaresSize {m : Message} (h : m.Made) : m.DeclaresSize := by
  cases h with
  | allocated h => exact declaresSize_of_resize h
  | resized h => exact declaresSize_of_resize h
  | stamped h =>
    obtain ⟨room, hroom, hcode⟩ := bind_eq_ok.mp h
    have hwrite : (Write.u32 4 _).apply room = .ok m := hcode
    exact Write.declaresSize_of_apply hwrite (declaresSize_of_resize hroom) (.inl (Nat.le_refl 4))

namespace Edit

variable {e : Edit} {m m' : Message}

def SparesMark : Edit → Prop
  | write w => w.SparesMark
  | reseal | resize _ => True

def Lawful (m : Message) : Edit → Prop
  | write w => w.Lawful m
  | reseal => m.Resealed
  | resize n => m.Resized n.toNat

theorem lawful (m : Message) (e : Edit) : e.Lawful m := by
  cases e with
  | write w => exact w.lawful m
  | reseal => exact m.resealed
  | resize n => exact m.resized n.toNat

theorem resize_leaves {n : UInt64} :
    (resize n).leaves m = some m' ↔ m.resize n.toNat = .ok m' := by
  rw [leaves]
  cases m.resize n.toNat <;> simp [Except.toOption]

theorem leaves_eq_none :
    e.leaves m = none ↔ ∃ n, e = resize n ∧ (n.toNat < 8 ∨ 99996 < n.toNat) := by
  cases e with
  | write w => simp [leaves]
  | reseal => simp [leaves]
  | resize n =>
    have hsucceeds := (m.resized n.toNat).succeeds
    simp only [← resize_leaves, ← Option.isSome_iff_exists] at hsucceeds
    rw [← Option.not_isSome_iff_eq_none, hsucceeds]
    simp only [resize.injEq, exists_eq_left']
    omega

theorem declaresSize_of_leaves (hm : m.DeclaresSize) (he : e.SparesMark)
    (h : e.leaves m = some m') : m'.DeclaresSize := by
  cases e with
  | write w =>
    cases happly : w.apply m with
    | error fault =>
      rw [Write.leaves_of_error happly] at h
      exact Option.some.inj h ▸ hm
    | ok m'' =>
      rw [Write.leaves_of_ok happly] at h
      exact Option.some.inj h ▸ Write.declaresSize_of_apply happly hm he
  | reseal =>
    obtain rfl : m.sealed = m' := Option.some.inj h
    have hroom : 4 ≤ m.bodySize := Nat.le_sub_of_add_le (Nat.le_trans (by decide) hm.2.1)
    exact hm.congr (Message.size_sealed m) fun i hi => Message.getElem?_sealed (hi.trans_le hroom)
  | resize n => exact Message.declaresSize_of_resize (resize_leaves.mp h)

end Edit

namespace Message

variable {m m' : Message} {e : Edit} {edits : List Edit}

theorem edited_cons : m.edited (e :: edits) = (e.leaves m).bind (·.edited edits) :=
  List.foldlM_cons

theorem edited_eq_none :
    m.edited edits = none ↔ ∃ n, .resize n ∈ edits ∧ (n.toNat < 8 ∨ 99996 < n.toNat) := by
  induction edits generalizing m with
  | nil => simp [edited]
  | cons e edits ih =>
    rw [edited_cons]
    cases hleaves : e.leaves m with
    | none =>
      obtain ⟨n, rfl, hn⟩ := Edit.leaves_eq_none.mp hleaves
      exact iff_of_true rfl ⟨n, List.mem_cons_self, hn⟩
    | some m' =>
      rw [Option.bind_some, ih]
      refine exists_congr fun n => and_congr_left fun hn => ?_
      have hother : Edit.resize n ≠ e := by
        rintro rfl
        cases hleaves.symm.trans (Edit.leaves_eq_none.mpr ⟨n, rfl, hn⟩)
      rw [List.mem_cons, or_iff_right hother]

theorem declaresSize_of_edited (hm : m.DeclaresSize) (hspares : ∀ e ∈ edits, e.SparesMark)
    (h : m.edited edits = some m') : m'.DeclaresSize := by
  induction edits generalizing m with
  | nil => exact Option.some.inj h ▸ hm
  | cons e edits ih =>
    rw [edited_cons] at h
    obtain ⟨next, hleaves, h⟩ := Option.bind_eq_some_iff.mp h
    obtain ⟨he, hrest⟩ := List.forall_mem_cons.mp hspares
    exact ih (Edit.declaresSize_of_leaves hm he hleaves) hrest h

structure LawfulRun (m : Message) (edits : List Edit) : Prop where
  lawful {before after : List Edit} {e : Edit} {m' : Message} : edits = before ++ e :: after →
    m.edited before = some m' → e.Lawful m'
  lost : m.edited edits = none ↔ ∃ n, .resize n ∈ edits ∧ (n.toNat < 8 ∨ 99996 < n.toNat)
  declared {m' : Message} : m.Made → (∀ e ∈ edits, e.SparesMark) → m.edited edits = some m' →
    m'.DeclaresSize

/-- Every edit of every message keeps its law, whatever edits came before it, and a message made for
its length declares it until something is written over the mark. -/
theorem edits_lawful (m : Message) (edits : List Edit) : m.LawfulRun edits where
  lawful _ _ := Edit.lawful _ _
  lost := edited_eq_none
  declared hmade hspares h := declaresSize_of_edited hmade.declaresSize hspares h

example : ((ofBytes [0, 0, 0, 12, 0, 0, 16, 5, 1, 2, 3, 4]).edited
    [.write (.region 4 0 [9]), .write (.u32 8 7), .resize 9]).map toBytes =
      some [0, 0, 0, 13, 9, 0, 16, 5, 1, 2, 3, 4, 0] := by
  decide

/-- Bytes written behind the greatest length of a message are not read there as a region. -/
theorem not_region_read_back :
    ∃ m', (Write.region 100000 0 [1]).apply ⟨Array.replicate 100005 0⟩ = .ok m' ∧
      m'.region? 100000 0 1 ≠ some [1] := by
  have hsize : (⟨Array.replicate 100005 0⟩ : Message).size = 100005 := Array.size_replicate
  obtain ⟨m', happly⟩ : ∃ m',
      (Write.region 100000 0 [1]).apply ⟨Array.replicate 100005 0⟩ = .ok m' := by
    rw [(Write.lawful _ _).succeeds, hsize]
    decide
  have hbehind : ¬m'.HasRegion 100000 0 1 := fun h => absurd h.1 (by decide)
  refine ⟨m', happly, ?_⟩
  rw [region?, if_neg hbehind]
  exact Option.some_ne_none _ |>.symm

end Message

end Arbiter
