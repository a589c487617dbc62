import Arbiter.Proofs.Message.Decodability
import Arbiter.Proofs.Message.Recognition

/-!
Loops over records. How many records stand one behind the other is a matter of the bytes before the
trailer alone; the number that a message declares is only compared with it. A loop therefore ends
after as many turns as there is room for records, whatever number is declared.
-/

namespace Arbiter.Message

variable {m : Message} {IsRecord : Bytes → Prop}

/-- `count` records from `start` to `stop`, each where the one before it ends, with the trailer
behind them. -/
inductive Chain (m : Message) (IsRecord : Bytes → Prop) : (count start stop : Nat) → Prop
  | nil {place : Nat} (hfits : place + trailerSize ≤ m.size) : Chain m IsRecord 0 place place
  | cons {count start stop : Nat} {record : Bytes} (hrecord : IsRecord record)
      (hholds : m.Holds start record)
      (hrest : Chain m IsRecord count (start + record.length) stop) :
      Chain m IsRecord (count + 1) start stop

def NoRecordAt (m : Message) (IsRecord : Bytes → Prop) (place : Nat) : Prop :=
  ¬∃ record, IsRecord record ∧ m.Holds place record

section Chains

variable {least count start stop : Nat}

namespace Chain

theorem advances (h : m.Chain IsRecord count start stop)
    (hleast : ∀ record, IsRecord record → least ≤ record.length) :
    start + least * count ≤ stop ∧ stop + trailerSize ≤ m.size := by
  induction h with
  | nil hfits => exact ⟨Nat.le_refl _, hfits⟩
  | cons hrecord hholds hrest ih =>
    obtain ⟨hstop, hfits⟩ := ih
    have hlength := hleast _ hrecord
    rw [Nat.mul_succ]
    exact ⟨by omega, hfits⟩

theorem start_fits (h : m.Chain IsRecord count start stop) : start + trailerSize ≤ m.size := by
  cases h with
  | nil hfits => exact hfits
  | cons hrecord hholds hrest =>
    have hfits := hholds.fits
    omega

theorem exists_prefix (h : m.Chain IsRecord count start stop) {first : Nat}
    (hfirst : first ≤ count) : ∃ place, m.Chain IsRecord first start place := by
  induction first generalizing count start with
  | zero => exact ⟨start, .nil h.start_fits⟩
  | succ first ih =>
    cases h with
    | nil hfits => cases hfirst
    | cons hrecord hholds hrest =>
      obtain ⟨place, hplace⟩ := ih hrest (Nat.le_of_succ_le_succ hfirst)
      exact ⟨place, .cons hrecord hholds hplace⟩

theorem exists_cursor {base cursor first : Nat} (h : m.Chain IsRecord count (base + cursor) stop)
    (hfirst : first ≤ count) :
    ∃ cursor', m.Chain IsRecord first (base + cursor) (base + cursor') := by
  obtain ⟨place, hplace⟩ := h.exists_prefix hfirst
  have hplaces := (hplace.advances fun _ _ => Nat.zero_le _).1
  obtain ⟨cursor', rfl⟩ := Nat.exists_eq_add_of_le (show base ≤ place by omega)
  exact ⟨cursor', hplace⟩

end Chain

theorem exists_chain (hleast : ∀ record, IsRecord record → 0 < record.length)
    (hfits : start + trailerSize ≤ m.size) :
    ∃ count stop, m.Chain IsRecord count start stop ∧ m.NoRecordAt IsRecord stop := by
  -- Every record leaves fewer bytes for the next.
  induction hleft : m.size - start using Nat.strong_induction_on generalizing start with
  | _ left ih =>
    by_cases hrecord : ∃ record, IsRecord record ∧ m.Holds start record
    · obtain ⟨record, hrecord, hholds⟩ := hrecord
      have hlength := hleast record hrecord
      have hend := hholds.fits
      obtain ⟨count, stop, hchain, hstop⟩ := ih _ (by omega) hend rfl
      exact ⟨count + 1, stop, .cons hrecord hholds hchain, hstop⟩
    · exact ⟨0, start, .nil hfits, hrecord⟩

end Chains

section Records

variable {place count index cursor : Nat} {record : Bytes}

def recordSize (m : Message) (place : Nat) : Nat :=
  ((m.u32At? place ⟨0, 4⟩).map UInt32.toNat).getD 0

theorem recordSize_of_eq_some {size : UInt32} (h : m.u32At? place ⟨0, 4⟩ = some size) :
    m.recordSize place = size.toNat := by
  rw [recordSize, h, Option.map_some, Option.getD_some]

theorem length_of_isRequestRecord (h : Grammar.IsRequestRecord record) : 17 ≤ record.length := by
  obtain ⟨size, index, checksumSize, pathSize, checksum, path, rfl, -, -, -, hzero⟩ := h
  have hpath := List.length_pos_of_mem hzero
  rw [length_record, List.length_append]
  omega

theorem length_of_isReplyRecord (h : Grammar.IsReplyRecord record) : 16 ≤ record.length := by
  obtain ⟨size, index, error, checksumSize, checksum, rfl, -, -⟩ := h
  rw [length_record]
  omega

theorem verifyRequestRecords_succ : m.verifyRequestRecords (count + 1) index cursor =
    (m.verifyRequestRecords 1 index cursor >>= fun _ =>
      m.verifyRequestRecords count (index + 1) (cursor + m.recordSize (32 + cursor))) := by
  cases hsize : m.u32At? (Layout.CsumMultiRequest.payload + cursor) Layout.RequestRecord.size with
  | none => simp only [verifyRequestRecords, hsize, expect, bind_assoc, error_bind]
  | some size =>
    have hwidth : m.recordSize (32 + cursor) = size.toNat := recordSize_of_eq_some hsize
    simp only [verifyRequestRecords, hsize, hwidth, expect_some, bind_assoc, ok_bind]

theorem verifyReplyRecords_succ : m.verifyReplyRecords (count + 1) index cursor =
    (m.verifyReplyRecords 1 index cursor >>= fun _ =>
      m.verifyReplyRecords count (index + 1) (cursor + m.recordSize (28 + cursor))) := by
  cases hsize : m.u32At? (Layout.CsumMultiReply.payload + cursor) Layout.ReplyRecord.size with
  | none => simp only [verifyReplyRecords, hsize, expect, bind_assoc, error_bind]
  | some size =>
    have hwidth : m.recordSize (28 + cursor) = size.toNat := recordSize_of_eq_some hsize
    simp only [verifyReplyRecords, hsize, hwidth, expect_some, bind_assoc, ok_bind]

theorem verifyRequestRecords_one (hmax : m.size ≤ maxSize) :
    m.verifyRequestRecords 1 index cursor = .ok () ↔
      ∃ record, Grammar.IsRequestRecord record ∧ m.Holds (32 + cursor) record := by
  rw [verifyRequestRecords_succ_eq_ok hmax, ← exists_requestRecord fun size =>
    m.verifyRequestRecords 0 (index + 1) (cursor + size) = .ok ()]
  simp only [verifyRequestRecords, and_true]

theorem verifyReplyRecords_one (hmax : m.size ≤ maxSize) :
    m.verifyReplyRecords 1 index cursor = .ok () ↔
      ∃ record, Grammar.IsReplyRecord record ∧ m.Holds (28 + cursor) record := by
  rw [verifyReplyRecords_succ_eq_ok hmax, ← exists_replyRecord fun size =>
    m.verifyReplyRecords 0 (index + 1) (cursor + size) = .ok ()]
  simp only [verifyReplyRecords, and_true]

theorem badRecord_of_verifyRequestRecords {op : Opcode} {index' : Nat}
    (h : m.verifyRequestRecords 1 index cursor = .error (.badRecord op index')) :
    op = .csumMultiRequest ∧ index' = index := by
  simp only [verifyRequestRecords, requireRegion, requireString, bind_eq_error, require_eq_error,
    expect_eq_error] at h
  grind

theorem badRecord_of_verifyReplyRecords {op : Opcode} {index' : Nat}
    (h : m.verifyReplyRecords 1 index cursor = .error (.badRecord op index')) :
    op = .csumMultiReply ∧ index' = index := by
  simp only [verifyReplyRecords, requireRegion, bind_eq_error, require_eq_error,
    expect_eq_error] at h
  grind

end Records

theorem verify_of_oversized (h : maxSize < m.size) : m.verify = .error (.tooLarge m.size) := by
  have hmin : minSize ≤ m.size := Nat.le_of_lt (Nat.lt_trans (by decide) h)
  rw [verify, require_of hmin, ok_bind, require_eq_error.mpr ⟨Nat.not_le_of_lt h, rfl⟩, error_bind]

theorem verifyLayout_of_verify {op : Opcode} (hop : m.opcode? = some op.code)
    (h : m.verify = .ok ()) : m.size ≤ maxSize ∧ m.verifyLayout op = .ok () := by
  obtain ⟨-, hmax, -, op', hcode, hlayout⟩ := verify_eq_ok.mp h
  have hsame : op' = op :=
    Opcode.code_inj.mp (Option.some.inj ((opcode?_eq_some.mpr hcode).symm.trans hop))
  exact ⟨hmax, hsame ▸ hlayout⟩

theorem verifyLayout_of_badRecord {op op' : Opcode} {index : Nat} (hop : m.opcode? = some op.code)
    (h : m.verify = .error (.badRecord op' index)) :
    m.size ≤ maxSize ∧ m.verifyLayout op = .error (.badRecord op' index) := by
  simp only [verify, hop, Opcode.ofCode?_code, expect_some, ok_bind, bind_eq_error,
    require_eq_error, expect_eq_error, reduceCtorEq, and_false, false_or] at h
  obtain ⟨-, -, ⟨⟩, hmax, -, -, -, -, hlayout⟩ := h
  exact ⟨require_eq_ok.mp hmax, hlayout⟩

/-- A kind of message that ends in records, and the two loops over them. -/
structure RecordKind (α : Type) where
  op : Opcode
  /-- Where the cursor counts from. -/
  base : Nat
  /-- No record has fewer bytes. -/
  least : Nat
  IsRecord : Bytes → Prop
  /-- The bytes of a record, and it as it is read. -/
  Says : Bytes → α → Prop
  /-- The first cursor and the number of records, as a message declares them. -/
  declared? : Message → Option (Nat × Nat)
  check : Message → (count index cursor : Nat) → Except Fault Unit
  read : Message → (count index cursor : Nat) → Except Fault (List α)
  records? : Content → Option (List α)

namespace RecordKind

/-- The records follow a key. None is shorter than its header and the zero byte of its path. -/
def requests : RecordKind RequestRecord where
  op := .csumMultiRequest
  base := Layout.CsumMultiRequest.payload
  least := 17
  IsRecord := Grammar.IsRequestRecord
  Says record r := ∃ (size checksumSize pathSize : UInt32) (path : Bytes),
    record = [size, r.index, checksumSize, pathSize].flatMap u32Bytes ++ (r.checksum ++ path) ∧
      checksumSize.toNat = r.checksum.length ∧ pathSize.toNat = path.length ∧
      r.path = untilZero path
  declared? m := do
    let keyIdSize ← m.u32? Layout.CsumMultiRequest.keyIdSize
    let count ← m.u32? Layout.CsumMultiRequest.count
    return (keyIdSize.toNat, count.toNat)
  check := verifyRequestRecords
  read := readRequestRecords
  records?
    | .csumMultiRequest _ _ _ _ records => some records
    | _ => none

def replies : RecordKind ReplyRecord where
  op := .csumMultiReply
  base := Layout.CsumMultiReply.payload
  least := 16
  IsRecord := Grammar.IsReplyRecord
  Says record r := ∃ size error checksumSize : UInt32,
    record = [size, r.index, error, checksumSize].flatMap u32Bytes ++ r.checksum ∧
      checksumSize.toNat = r.checksum.length ∧ r.error = error.toInt32
  declared? m := do
    let count ← m.u32? Layout.CsumMultiReply.count
    return (0, count.toNat)
  check := verifyReplyRecords
  read := readReplyRecords
  records?
    | .csumMultiReply _ _ _ records => some records
    | _ => none

variable {α : Type} (kind : RecordKind α) (m : Message)

/-- What the chain from `start` to `stop` says, record by record. -/
inductive Spells : List α → (start stop : Nat) → Prop
  | nil {place : Nat} : Spells [] place place
  | cons {records : List α} {start stop : Nat} {record : Bytes} {r : α}
      (hrecord : kind.IsRecord record) (hsaid : kind.Says record r) (hholds : m.Holds start record)
      (hrest : Spells records (start + record.length) stop) : Spells (r :: records) start stop

/-- One turn of the loops. What stands at the cursor decides whether there is another turn, and
where the cursor is then. -/
structure Turns : Prop where
  least_le : ∀ record, kind.IsRecord record → kind.least ≤ record.length
  header_le : 16 ≤ kind.least
  check_zero : ∀ index cursor, kind.check m 0 index cursor = .ok ()
  check_succ : ∀ count index cursor, kind.check m (count + 1) index cursor =
    (kind.check m 1 index cursor >>= fun _ =>
      kind.check m count (index + 1) (cursor + m.recordSize (kind.base + cursor)))
  check_one : ∀ index cursor, kind.check m 1 index cursor = .ok () ↔
    ∃ record, kind.IsRecord record ∧ m.Holds (kind.base + cursor) record
  badRecord : ∀ {index cursor op index'},
    kind.check m 1 index cursor = .error (.badRecord op index') → op = kind.op ∧ index' = index
  recordSize_eq : ∀ {record cursor}, kind.IsRecord record → m.Holds (kind.base + cursor) record →
    m.recordSize (kind.base + cursor) = record.length
  read_zero : ∀ index cursor, kind.read m 0 index cursor = .ok []
  read_record : ∀ {record cursor}, kind.IsRecord record → m.Holds (kind.base + cursor) record →
    ∃ r, kind.Says record r ∧ ∀ count index, kind.read m (count + 1) index cursor =
      (kind.read m count (index + 1) (cursor + record.length)).map (r :: ·)

/-- Whole runs of the loops. Every record that is accepted moves the cursor by at least its least
size and leaves it in the body. -/
structure Paced : Prop where
  advances : ∀ {count start stop}, m.Chain kind.IsRecord count start stop →
    start + kind.least * count ≤ stop ∧ stop ≤ m.bodySize
  /-- Both loops come through a chain, and then stand behind it. What is read is what the chain
  says. -/
  passes : ∀ {count cursor cursor'},
    m.Chain kind.IsRecord count (kind.base + cursor) (kind.base + cursor') → ∀ index,
      (∀ rest, kind.check m (count + rest) index cursor =
        kind.check m rest (index + count) cursor') ∧
      ∃ records : List α, records.length = count ∧
        kind.Spells m records (kind.base + cursor) (kind.base + cursor') ∧ ∀ rest,
          kind.read m (count + rest) index cursor =
            (kind.read m rest (index + count) cursor').map (records ++ ·)
  /-- A number that is declared is accepted up to the number of records there are, and every greater
  one is refused in the same way. -/
  stops : ∀ index cursor, kind.base + cursor + trailerSize ≤ m.size → ∃ count cursor',
    m.Chain kind.IsRecord count (kind.base + cursor) (kind.base + cursor') ∧
      m.NoRecordAt kind.IsRecord (kind.base + cursor') ∧ count ≤ m.bodySize / 16 ∧
      (∀ declared ≤ count, kind.check m declared index cursor = .ok ()) ∧
      ∃ fault, (∀ declared > count, kind.check m declared index cursor = .error fault) ∧
        ∀ op index', fault = .badRecord op index' → op = kind.op ∧ index' = index + count

variable {kind m}

section Runs

variable {count cursor cursor' start stop : Nat} (index : Nat)

namespace Turns

theorem check_record (h : kind.Turns m) {record : Bytes} (hrecord : kind.IsRecord record)
    (hholds : m.Holds (kind.base + cursor) record) :
    kind.check m (count + 1) index cursor =
      kind.check m count (index + 1) (cursor + record.length) := by
  rw [h.check_succ, (h.check_one index cursor).mpr ⟨record, hrecord, hholds⟩, ok_bind,
    h.recordSize_eq hrecord hholds]

theorem check_none (h : kind.Turns m) (hnone : m.NoRecordAt kind.IsRecord (kind.base + cursor)) :
    ∃ fault, (∀ count, kind.check m (count + 1) index cursor = .error fault) ∧
      ∀ op index', fault = .badRecord op index' → op = kind.op ∧ index' = index := by
  cases hcheck : kind.check m 1 index cursor with
  | ok => exact absurd ((h.check_one index cursor).mp hcheck) hnone
  | error fault =>
    refine ⟨fault, fun count => by rw [h.check_succ, hcheck, error_bind], ?_⟩
    rintro op index' rfl
    exact h.badRecord hcheck

theorem check_chain (h : kind.Turns m) (hchain : m.Chain kind.IsRecord count start stop)
    (hstart : start = kind.base + cursor) (hstop : stop = kind.base + cursor') (rest : Nat) :
    kind.check m (count + rest) index cursor = kind.check m rest (index + count) cursor' := by
  induction hchain generalizing index cursor with
  | nil =>
    obtain rfl : cursor = cursor' := by omega
    rw [Nat.zero_add, Nat.add_zero]
  | @cons count start stop record hrecord hholds _ ih =>
    subst hstart
    calc kind.check m (count + 1 + rest) index cursor
        = kind.check m (count + rest) (index + 1) (cursor + record.length) := by
          rw [Nat.add_right_comm, h.check_record index hrecord hholds]
      _ = kind.check m rest (index + 1 + count) cursor' := ih _ (Nat.add_assoc ..) hstop
      _ = kind.check m rest (index + (count + 1)) cursor' := by rw [Nat.add_assoc, Nat.add_comm 1]

theorem read_chain (h : kind.Turns m) (hchain : m.Chain kind.IsRecord count start stop)
    (hstart : start = kind.base + cursor) (hstop : stop = kind.base + cursor') :
    ∃ records : List α, records.length = count ∧ kind.Spells m records start stop ∧ ∀ rest,
      kind.read m (count + rest) index cursor =
        (kind.read m rest (index + count) cursor').map (records ++ ·) := by
  induction hchain generalizing index cursor with
  | nil =>
    obtain rfl : cursor = cursor' := by omega
    refine ⟨[], rfl, .nil, fun rest => ?_⟩
    rw [Nat.zero_add, Nat.add_zero]
    exact (id_map (kind.read m rest index cursor)).symm
  | @cons count start stop record hrecord hholds _ ih =>
    subst hstart
    obtain ⟨r, hsaid, hr⟩ := h.read_record hrecord hholds
    obtain ⟨records, hlength, hspells, hrecords⟩ := ih (index + 1) (Nat.add_assoc ..) hstop
    refine ⟨r :: records, congrArg Nat.succ hlength, .cons hrecord hsaid hholds hspells,
      fun rest => ?_⟩
    rw [Nat.add_right_comm, hr, hrecords, Nat.add_assoc index, Nat.add_comm 1]
    exact (comp_map (records ++ ·) (r :: ·)
      (kind.read m rest (index + (count + 1)) cursor')).symm

theorem spells_of_read (h : kind.Turns m)
    (hchain : m.Chain kind.IsRecord count (kind.base + cursor) (kind.base + cursor'))
    {records : List α} (hread : kind.read m count index cursor = .ok records) :
    records.length = count ∧
      kind.Spells m records (kind.base + cursor) (kind.base + cursor') := by
  obtain ⟨records', hlength, hspells, hread'⟩ := h.read_chain index hchain rfl rfl
  have hall : kind.read m count index cursor = .ok (records' ++ []) := by
    rw [← Nat.add_zero count, hread' 0, h.read_zero]
    rfl
  rw [List.append_nil] at hall
  obtain rfl := Except.ok.inj (hread.symm.trans hall)
  exact ⟨hlength, hspells⟩

theorem paced (h : kind.Turns m) : kind.Paced m where
  advances hchain := by
    obtain ⟨hstop, hfits⟩ := hchain.advances h.least_le
    exact ⟨hstop, Nat.le_sub_of_add_le hfits⟩
  passes hchain index := ⟨h.check_chain index hchain rfl rfl, h.read_chain index hchain rfl rfl⟩
  stops index cursor hcursor := by
    have hheader := h.header_le
    have hpositive : ∀ record, kind.IsRecord record → 0 < record.length := fun record hrecord =>
      Nat.lt_of_lt_of_le (by omega) (h.least_le record hrecord)
    obtain ⟨count, stop, hchain, hnone⟩ := exists_chain hpositive hcursor
    obtain ⟨hstop, hfits⟩ := hchain.advances h.least_le
    have hwidth : 16 * count ≤ kind.least * count := Nat.mul_le_mul_right count hheader
    obtain ⟨cursor', rfl⟩ := Nat.exists_eq_add_of_le (show kind.base ≤ stop by omega)
    refine ⟨count, cursor', hchain, hnone, ?_, fun declared hdeclared => ?_, ?_⟩
    · rw [bodySize]
      omega
    · obtain ⟨place, hplace⟩ := hchain.exists_cursor hdeclared
      rw [← Nat.add_zero declared, h.check_chain index hplace rfl rfl, h.check_zero]
    · obtain ⟨fault, hfault, hindex⟩ := h.check_none (index + count) hnone
      refine ⟨fault, fun declared hdeclared => ?_, hindex⟩
      obtain ⟨rest, rfl⟩ := Nat.exists_eq_add_of_le (Nat.succ_le_of_lt hdeclared)
      rw [Nat.succ_add_eq_add_succ, h.check_chain index hchain rfl rfl, hfault]

end Turns

end Runs

section Kinds

variable {count index cursor : Nat}

theorem requests_turns (hmax : m.size ≤ maxSize) : requests.Turns m where
  least_le _ := length_of_isRequestRecord
  header_le := by decide
  check_zero _ _ := rfl
  check_succ _ _ _ := verifyRequestRecords_succ
  check_one _ _ := verifyRequestRecords_one hmax
  badRecord := badRecord_of_verifyRequestRecords
  recordSize_eq {record cursor} hrecord hholds := by
    obtain ⟨size, -, -, hsize, -, -, -, -, -, hlength⟩ :=
      (exists_requestRecord (· = record.length)).mp ⟨record, hrecord, hholds, rfl⟩
    rw [recordSize_of_eq_some (u32At?_eq_some.mpr hsize), hlength]
  read_zero _ _ := rfl
  read_record {record cursor} hrecord hholds := by
    have hfits := hholds.fits
    obtain ⟨size, number, checksumSize, pathSize, checksum, path, rfl, hsize, hchecksum, hpath, -⟩ :=
      hrecord
    rw [← hsize] at hfits
    obtain ⟨hsizeAt, hnumberAt, hchecksumAt, hpathAt, hregions⟩ := holds_record.mp hholds
    have htotal : 16 + checksumSize.toNat + pathSize.toNat = size.toNat := by
      rw [hsize, length_record, List.length_append, hchecksum, hpath, Nat.add_assoc]
    refine ⟨⟨number, checksum, untilZero path⟩, ⟨size, checksumSize, pathSize, path, rfl, hchecksum,
      hpath, rfl⟩, fun count index => ?_⟩
    refine (readRequestRecords_succ hmax hsizeAt hnumberAt hchecksumAt hpathAt htotal hfits count
      index).trans ?_
    have hleft : m.slice (32 + cursor + 16) checksum.length = checksum := hregions.left.slice_eq
    have hright : m.slice (32 + cursor + 16 + checksum.length) path.length = path :=
      hregions.right.slice_eq
    rw [hchecksum, hpath, hleft, hright, hsize]
    rfl

theorem replies_turns (hmax : m.size ≤ maxSize) : replies.Turns m where
  least_le _ := length_of_isReplyRecord
  header_le := Nat.le_refl 16
  check_zero _ _ := rfl
  check_succ _ _ _ := verifyReplyRecords_succ
  check_one _ _ := verifyReplyRecords_one hmax
  badRecord := badRecord_of_verifyReplyRecords
  recordSize_eq {record cursor} hrecord hholds := by
    obtain ⟨size, -, hsize, -, -, -, hlength⟩ :=
      (exists_replyRecord (· = record.length)).mp ⟨record, hrecord, hholds, rfl⟩
    rw [recordSize_of_eq_some (u32At?_eq_some.mpr hsize), hlength]
  read_zero _ _ := rfl
  read_record {record cursor} hrecord hholds := by
    have hfits := hholds.fits
    obtain ⟨size, number, error, checksumSize, checksum, rfl, hsize, hchecksum⟩ := hrecord
    rw [← hsize] at hfits
    obtain ⟨hsizeAt, hnumberAt, herrorAt, hchecksumAt, hregion⟩ := holds_record.mp hholds
    have htotal : 16 + checksumSize.toNat = size.toNat := by
      rw [hsize, length_record, hchecksum]
    refine ⟨⟨number, error.toInt32, checksum⟩, ⟨size, error, checksumSize, rfl, hchecksum, rfl⟩,
      fun count index => ?_⟩
    refine (readReplyRecords_succ hmax hsizeAt hnumberAt herrorAt hchecksumAt htotal hfits count
      index).trans ?_
    have hslice : m.slice (28 + cursor + 16) checksum.length = checksum := hregion.slice_eq
    rw [hchecksum, hslice, hsize]
    rfl

end Kinds

/-- How the loops are called: with the number of records that is declared, at the place where they
begin. -/
structure Calls (kind : RecordKind α) (m : Message) : Prop where
  accepted : m.verifyLayout kind.op = .ok () → ∃ cursor count,
    kind.declared? m = some (cursor, count) ∧ kind.base + cursor + trailerSize ≤ m.size ∧
      kind.check m count 0 cursor = .ok ()
  refused : ∀ {op index}, m.verifyLayout kind.op = .error (.badRecord op index) → ∃ cursor count,
    kind.declared? m = some (cursor, count) ∧ kind.base + cursor + trailerSize ≤ m.size ∧
      kind.check m count 0 cursor = .error (.badRecord op index)
  read : ∀ {content}, m.readContent kind.op = .ok content → ∃ cursor count records,
    kind.declared? m = some (cursor, count) ∧ kind.read m count 0 cursor = .ok records ∧
      kind.records? content = some records

theorem requests_declared {cursor count : Nat} :
    requests.declared? m = some (cursor, count) ↔ ∃ keyIdSize number : UInt32,
      m.Holds 24 (u32Bytes keyIdSize) ∧ m.Holds 28 (u32Bytes number) ∧
        keyIdSize.toNat = cursor ∧ number.toNat = count := by
  simp only [requests, Layout.CsumMultiRequest.keyIdSize, Layout.CsumMultiRequest.count,
    Option.bind_eq_bind, Option.bind_eq_some_iff, u32?_eq_some, Option.pure_def, Option.some.injEq,
    Prod.mk.injEq, exists_and_left]

theorem replies_declared {cursor count : Nat} :
    replies.declared? m = some (cursor, count) ↔ ∃ number : UInt32,
      m.Holds 24 (u32Bytes number) ∧ 0 = cursor ∧ number.toNat = count := by
  simp only [replies, Layout.CsumMultiReply.count, Option.bind_eq_bind, Option.bind_eq_some_iff,
    u32?_eq_some, Option.pure_def, Option.some.injEq, Prod.mk.injEq]

theorem requests_calls (hmax : m.size ≤ maxSize) : requests.Calls m where
  accepted h := by
    obtain ⟨keyIdSize, number, hkeyIdSize, hnumber, hfits, hcheck⟩ :=
      (verifyCsumMultiRequest_eq_ok hmax).mp h
    exact ⟨_, _, requests_declared.mpr ⟨keyIdSize, number, hkeyIdSize, hnumber, rfl, rfl⟩, hfits,
      hcheck⟩
  refused {op index} h := by
    simp only [requests, verifyLayout, verifyCsumMultiRequest, requireField, requireRegion,
      expectSize, shortOf, bind_eq_error, require_eq_error, expect_eq_error, reduceCtorEq,
      and_false, false_or] at h
    obtain ⟨-, -, cursor, hcursor, count, hcount, ⟨⟩, hregion, hcheck⟩ := h
    obtain ⟨keyIdSize, hkeyIdSize, rfl⟩ := expectSize_eq_ok.mp hcursor
    obtain ⟨number, hnumber, rfl⟩ := expectSize_eq_ok.mp hcount
    exact ⟨_, _, requests_declared.mpr ⟨keyIdSize, number, hkeyIdSize, hnumber, rfl, rfl⟩,
      (hasRegion_iff (by decide) hmax).mp (require_eq_ok.mp hregion), hcheck⟩
  read h := by
    simp only [requests, readContent, readCsumMultiRequest, bind_eq_ok, pure, Except.pure,
      Except.ok.injEq] at h
    obtain ⟨cursor, hcursor, count, hcount, records, hrecords, -, -, -, -, -, -, -, -, rfl⟩ := h
    obtain ⟨keyIdSize, hkeyIdSize, rfl⟩ := readSize_eq_ok.mp hcursor
    obtain ⟨number, hnumber, rfl⟩ := readSize_eq_ok.mp hcount
    exact ⟨_, _, records, requests_declared.mpr ⟨keyIdSize, number, hkeyIdSize, hnumber, rfl, rfl⟩,
      hrecords, rfl⟩

theorem replies_calls : replies.Calls m where
  accepted h := by
    obtain ⟨number, hnumber, hcheck⟩ := verifyCsumMultiReply_eq_ok.mp h
    exact ⟨_, _, replies_declared.mpr ⟨number, hnumber, rfl, rfl⟩, hnumber.fits, hcheck⟩
  refused {op index} h := by
    simp only [replies, verifyLayout, verifyCsumMultiReply, requireField, expectSize, shortOf,
      bind_eq_error, require_eq_error, expect_eq_error, reduceCtorEq, and_false, false_or] at h
    obtain ⟨-, -, count, hcount, hcheck⟩ := h
    obtain ⟨number, hnumber, rfl⟩ := expectSize_eq_ok.mp hcount
    exact ⟨_, _, replies_declared.mpr ⟨number, hnumber, rfl, rfl⟩, hnumber.fits, hcheck⟩
  read h := by
    simp only [replies, readContent, readCsumMultiReply, bind_eq_ok, pure, Except.pure,
      Except.ok.injEq] at h
    obtain ⟨count, hcount, records, hrecords, -, -, -, -, -, -, rfl⟩ := h
    obtain ⟨number, hnumber, rfl⟩ := readSize_eq_ok.mp hcount
    exact ⟨_, _, records, replies_declared.mpr ⟨number, hnumber, rfl, rfl⟩, hrecords, rfl⟩

/-- The records of a message stop its loops, whatever number it declares. -/
structure Bounded (kind : RecordKind α) (m : Message) : Prop where
  /-- A message that is too large does not come to its loops. -/
  oversized : maxSize < m.size → m.verify = .error (.tooLarge m.size)
  paced : m.size ≤ maxSize → kind.Paced m
  accepted : m.opcode? = some kind.op.code → m.verify = .ok () →
    ∃ cursor count cursor' content records, kind.declared? m = some (cursor, count) ∧
      m.Chain kind.IsRecord count (kind.base + cursor) (kind.base + cursor') ∧
      kind.base + cursor + kind.least * count ≤ m.bodySize ∧
      m.decode = .ok content ∧ kind.records? content = some records ∧ records.length = count ∧
      kind.Spells m records (kind.base + cursor) (kind.base + cursor')
  /-- The records before the one that is blamed are well formed, and that one is not. -/
  refused : m.opcode? = some kind.op.code → ∀ op index,
    m.verify = .error (.badRecord op index) → op = kind.op ∧
      ∃ cursor count stop, kind.declared? m = some (cursor, count) ∧ index < count ∧
        index ≤ m.bodySize / 16 ∧ m.Chain kind.IsRecord index (kind.base + cursor) stop ∧
        m.NoRecordAt kind.IsRecord stop

namespace Paced

variable {count index cursor : Nat}

theorem exists_chain_of_check (h : kind.Paced m)
    (hcursor : kind.base + cursor + trailerSize ≤ m.size)
    (hcheck : kind.check m count index cursor = .ok ()) :
    ∃ cursor', m.Chain kind.IsRecord count (kind.base + cursor) (kind.base + cursor') := by
  obtain ⟨most, cursor', hchain, -, -, -, fault, hrefused, -⟩ := h.stops index cursor hcursor
  have hmost : count ≤ most := by
    refine Nat.le_of_not_lt fun hlt => ?_
    cases hcheck.symm.trans (hrefused count hlt)
  exact hchain.exists_cursor hmost

theorem exists_chain_of_badRecord (h : kind.Paced m)
    (hcursor : kind.base + cursor + trailerSize ≤ m.size) {op : Opcode} {index' : Nat}
    (hcheck : kind.check m count index cursor = .error (.badRecord op index')) :
    op = kind.op ∧ ∃ before stop, index' = index + before ∧ before < count ∧
      before ≤ m.bodySize / 16 ∧ m.Chain kind.IsRecord before (kind.base + cursor) stop ∧
      m.NoRecordAt kind.IsRecord stop := by
  obtain ⟨most, cursor', hchain, hnone, hroom, haccepted, fault, hrefused, hindex⟩ :=
    h.stops index cursor hcursor
  have hmost : most < count := by
    refine Nat.lt_of_not_le fun hle => ?_
    cases hcheck.symm.trans (haccepted count hle)
  have hfault : fault = .badRecord op index' :=
    Except.error.inj ((hrefused count hmost).symm.trans hcheck)
  obtain ⟨hop, hindex⟩ := hindex op index' hfault
  exact ⟨hop, most, _, hindex, hmost, hroom, hchain, hnone⟩

end Paced

theorem bounded (hturns : m.size ≤ maxSize → kind.Turns m)
    (hcalls : m.size ≤ maxSize → kind.Calls m) : kind.Bounded m where
  oversized := verify_of_oversized
  paced hmax := (hturns hmax).paced
  accepted hop hverify := by
    obtain ⟨hmax, hlayout⟩ := verifyLayout_of_verify hop hverify
    have hpaced := (hturns hmax).paced
    obtain ⟨cursor, count, hdeclared, hcursor, hcheck⟩ := (hcalls hmax).accepted hlayout
    obtain ⟨cursor', hchain⟩ := hpaced.exists_chain_of_check hcursor hcheck
    obtain ⟨content, hcontent⟩ := exists_readContent hmax hlayout
    obtain ⟨_, _, records, hdeclared', hread, hrecords⟩ := (hcalls hmax).read hcontent
    cases hdeclared.symm.trans hdeclared'
    refine ⟨cursor, count, cursor', content, records, hdeclared, hchain, ?_,
      decode_eq_ok.mpr ⟨hverify, kind.op, hop, hcontent⟩, hrecords, ?_⟩
    · obtain ⟨hstop, hbody⟩ := hpaced.advances hchain
      exact hstop.trans hbody
    · exact (hturns hmax).spells_of_read 0 hchain hread
  refused hop op index hverify := by
    obtain ⟨hmax, hlayout⟩ := verifyLayout_of_badRecord hop hverify
    obtain ⟨cursor, count, hdeclared, hcursor, hcheck⟩ := (hcalls hmax).refused hlayout
    obtain ⟨hsame, before, stop, hindex, hbefore, hroom, hchain, hnone⟩ :=
      (hturns hmax).paced.exists_chain_of_badRecord hcursor hcheck
    rw [Nat.zero_add] at hindex
    subst hindex
    exact ⟨hsame, cursor, count, stop, hdeclared, hbefore, hroom, hchain, hnone⟩

end RecordKind

/-- The loops of a message with records end where its records do, before the trailer, whatever number
of records it declares. -/
theorem record_loops_bounded (m : Message) :
    RecordKind.requests.Bounded m ∧ RecordKind.replies.Bounded m :=
  ⟨RecordKind.bounded RecordKind.requests_turns RecordKind.requests_calls,
    RecordKind.bounded RecordKind.replies_turns fun _ => RecordKind.replies_calls⟩

example : (ofBytes (u32Bytes 36 ++ u32Bytes Opcode.csumMultiRequest.code ++ List.replicate 20 0 ++
    u32Bytes 4294967295 ++ u32Bytes 0)).verify = .error (.badRecord .csumMultiRequest 0) := by
  cbv

end Arbiter.Message
