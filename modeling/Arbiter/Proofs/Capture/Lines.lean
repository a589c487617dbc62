import Arbiter.Capture

/-!
The lines that reports are written on. Each part of a line ends with a character that none of its
kind holds, and the text of the error stands last, so the line tells the whole report.
-/

namespace Arbiter

theorem Hex.digit_inj {m n : Nat} (h : digit m = digit n) : m % 16 = n % 16 := by
  have hall : ∀ i j : Fin 16, Nat.digitChar i = Nat.digitChar j → i = j := by decide
  have hpos : 0 < 16 := by decide
  exact congrArg Fin.val (hall ⟨m % 16, Nat.mod_lt m hpos⟩ ⟨n % 16, Nat.mod_lt n hpos⟩ h)

theorem Hex.digit_ne_quote (n : Nat) : digit n ≠ '"' := by
  have hall : ∀ i : Fin 16, Nat.digitChar i ≠ '"' := by decide
  exact hall ⟨n % 16, Nat.mod_lt n (by decide)⟩

theorem Hex.toList_encode (bytes : Bytes) :
    (encode bytes).toList = bytes.flatMap fun b => [digit (b.toNat / 16), digit b.toNat] :=
  String.toList_ofList

theorem Hex.encode_injective {as bs : Bytes} (h : encode as = encode bs) : as = bs := by
  replace h := congrArg String.toList h
  rw [toList_encode, toList_encode] at h
  induction as generalizing bs with
  | nil =>
    cases bs with
    | nil => rfl
    | cons => simp at h
  | cons a as ih =>
    cases bs with
    | nil => simp at h
    | cons b bs =>
      simp only [List.flatMap_cons, List.cons_append, List.nil_append, List.cons.injEq] at h
      obtain ⟨hhigh, hlow, hrest⟩ := h
      have ha := a.toNat_lt
      have hb := b.toNat_lt
      replace hhigh := digit_inj hhigh
      replace hlow := digit_inj hlow
      have heq : a.toNat = b.toNat := by omega
      rw [ih hrest, UInt8.toNat_inj.mp heq]

theorem Hex.quote_not_mem_encode (bytes : Bytes) : '"' ∉ (encode bytes).toList := by
  intro hmem
  rw [toList_encode, List.mem_flatMap] at hmem
  obtain ⟨b, -, hdigit⟩ := hmem
  simp only [List.mem_cons, List.not_mem_nil, or_false] at hdigit
  obtain hdigit | hdigit := hdigit
  · exact digit_ne_quote _ hdigit.symm
  · exact digit_ne_quote _ hdigit.symm

theorem Opcode.quote_not_mem_name (op : Opcode) : '"' ∉ op.name.toList := by
  cases op with
  | retired kind => exact (by decide : '"' ∉ "RETIRED".toList)
  | _ => decide

theorem Opcode.quote_not_mem_nameOfCode (code : UInt32) : '"' ∉ (nameOfCode code).toList := by
  unfold nameOfCode
  split
  · exact quote_not_mem_name _
  · decide

namespace Capture.Report

variable {x y : List Char}

theorem eq_of_stop {stop : Char} {u v : List Char} (hu : stop ∉ u) (hv : stop ∉ v)
    (h : u ++ stop :: x = v ++ stop :: y) : u = v ∧ x = y := by
  induction u generalizing v with
  | nil =>
    cases v with
    | nil => exact ⟨rfl, (List.cons.inj h).2⟩
    | cons c v => exact absurd ((List.cons.inj h).1 ▸ List.mem_cons_self) hv
  | cons c u ih =>
    cases v with
    | nil => exact absurd ((List.cons.inj h).1 ▸ List.mem_cons_self) hu
    | cons d v =>
      obtain ⟨rfl, hrest⟩ := List.cons.inj h
      obtain ⟨rfl, rfl⟩ := ih (List.not_mem_of_not_mem_cons hu) (List.not_mem_of_not_mem_cons hv)
        hrest
      exact ⟨rfl, rfl⟩

theorem number_eq {m n : Nat}
    (h : (toString m).toList ++ ',' :: x = (toString n).toList ++ ',' :: y) : m = n ∧ x = y := by
  have hdigits (k : Nat) : (toString k).toList = Nat.toDigits 10 k := by
    rw [Nat.toString_eq_repr, Nat.toList_repr]
  have hcomma (k : Nat) : ',' ∉ Nat.toDigits 10 k := fun hmem =>
    absurd (Nat.isDigit_of_mem_toDigits (by decide) (by decide) hmem) (by decide)
  rw [hdigits, hdigits] at h
  obtain ⟨hsame, rfl⟩ := eq_of_stop (hcomma m) (hcomma n) h
  have hread := congrArg (Nat.ofDigitChars 10 · 0) hsame
  simp only [Nat.ofDigitChars_ten_toDigits] at hread
  exact ⟨hread, rfl⟩

theorem toList_quoted (text : String) : (quoted text).toList = '"' :: (text.toList ++ ['"']) := by
  simp [quoted]

theorem quoted_eq {s t : String} (hs : '"' ∉ s.toList) (ht : '"' ∉ t.toList)
    (h : (quoted s).toList ++ x = (quoted t).toList ++ y) : s = t ∧ x = y := by
  simp only [toList_quoted, List.cons_append, List.append_assoc, List.nil_append,
    List.cons.injEq, true_and] at h
  obtain ⟨htext, rfl⟩ := eq_of_stop hs ht h
  exact ⟨String.toList_injective htext, rfl⟩

theorem name_eq {a b : Option String} (ha : ∀ s ∈ a, '"' ∉ s.toList)
    (hb : ∀ s ∈ b, '"' ∉ s.toList)
    (h : ((a.map quoted).getD "null").toList ++ x = ((b.map quoted).getD "null").toList ++ y) :
    a = b ∧ x = y := by
  cases a with
  | none =>
    cases b with
    | none => exact ⟨rfl, List.append_cancel_left h⟩
    | some t => simp [toList_quoted] at h
  | some s =>
    cases b with
    | none => simp [toList_quoted] at h
    | some t =>
      obtain ⟨rfl, rfl⟩ := quoted_eq (ha s rfl) (hb t rfl) h
      exact ⟨rfl, rfl⟩

theorem flag_eq {a b : Bool} (h : (toString a).toList ++ x = (toString b).toList ++ y) :
    a = b ∧ x = y := by
  have hfalse : (toString false).toList = ['f', 'a', 'l', 's', 'e'] := rfl
  have htrue : (toString true).toList = ['t', 'r', 'u', 'e'] := rfl
  cases a <;> cases b <;> simp_all

def checksumText (checksum : Option Bytes) : String :=
  checksum.elim "" fun bytes => ",\"checksum\":" ++ quoted (Hex.encode bytes)

def errorText (error : Option String) : String :=
  error.elim "" fun text => ",\"error\":" ++ quoted text

theorem toList_line (r : Report) : r.line.toList =
    "\x7b\"offset\":".toList ++ ((toString r.offset).toList ++ ',' :: ("\"opcode\":".toList ++
      (((r.opcode.map quoted).getD "null").toList ++ (",\"length\":".toList ++
        ((toString r.length).toList ++ ',' :: ("\"valid\":".toList ++
          ((toString r.valid).toList ++ ((checksumText r.checksum).toList ++
            ((errorText r.error).toList ++ ['\x7d']))))))))) := by
  have hopcode : ",\"opcode\":".toList = ',' :: "\"opcode\":".toList := rfl
  have hvalid : ",\"valid\":".toList = ',' :: "\"valid\":".toList := rfl
  have hend : "\x7d".toList = ['\x7d'] := rfl
  have hline : r.line = "\x7b\"offset\":" ++ toString r.offset ++
      ",\"opcode\":" ++ (r.opcode.map quoted).getD "null" ++
      ",\"length\":" ++ toString r.length ++
      ",\"valid\":" ++ toString r.valid ++ checksumText r.checksum ++ errorText r.error ++
      "\x7d" := by
    unfold line
    cases r.checksum <;> cases r.error <;> rfl
  rw [hline]
  simp only [String.toList_append, List.append_assoc, hopcode, hvalid, hend, List.cons_append]

theorem error_eq {e e' : Option String}
    (h : (errorText e).toList ++ ['\x7d'] = (errorText e').toList ++ ['\x7d']) : e = e' := by
  replace h := List.append_cancel_right h
  cases e with
  | none =>
    cases e' with
    | none => rfl
    | some t => simp [errorText] at h
  | some s =>
    cases e' with
    | none => simp [errorText] at h
    | some t =>
      have htext : (quoted s).toList = (quoted t).toList := by simpa [errorText] using h
      rw [toList_quoted, toList_quoted] at htext
      have htext := List.append_cancel_right (List.cons.inj htext).2
      rw [String.toList_injective htext]

theorem checksum_eq {c c' : Option Bytes} {e e' : Option String}
    (h : (checksumText c).toList ++ ((errorText e).toList ++ ['\x7d']) =
      (checksumText c').toList ++ ((errorText e').toList ++ ['\x7d'])) :
    c = c' ∧ (errorText e).toList ++ ['\x7d'] = (errorText e').toList ++ ['\x7d'] := by
  -- The third character tells whether there is a checksum.
  have hwith (bytes : Bytes) (x : List Char) :
      ((checksumText (some bytes)).toList ++ x)[2]? = some 'c' := by simp [checksumText]
  have hwithout (e : Option String) :
      ((checksumText none).toList ++ ((errorText e).toList ++ ['\x7d']))[2]? ≠ some 'c' := by
    cases e <;> simp [checksumText, errorText]
  cases c with
  | none =>
    cases c' with
    | none => exact ⟨rfl, h⟩
    | some bytes' => exact absurd (h ▸ hwith bytes' _) (hwithout e)
  | some bytes =>
    cases c' with
    | none => exact absurd (h ▸ hwith bytes _) (hwithout e')
    | some bytes' =>
      simp only [checksumText, Option.elim_some, String.toList_append, List.append_assoc] at h
      obtain ⟨hhex, hrest⟩ := quoted_eq (Hex.quote_not_mem_encode _) (Hex.quote_not_mem_encode _)
        (List.append_cancel_left h)
      exact ⟨congrArg some (Hex.encode_injective hhex), hrest⟩

/-- Whatever the texts of the errors, a line is that of one report only. -/
theorem eq_of_line {r r' : Report} (hr : ∀ s ∈ r.opcode, '"' ∉ s.toList)
    (hr' : ∀ s ∈ r'.opcode, '"' ∉ s.toList) (h : r.line = r'.line) : r = r' := by
  obtain ⟨offset, opcode, length, valid, checksum, error⟩ := r
  obtain ⟨offset', opcode', length', valid', checksum', error'⟩ := r'
  replace h := congrArg String.toList h
  rw [toList_line, toList_line] at h
  obtain ⟨rfl, h⟩ := number_eq (List.append_cancel_left h)
  obtain ⟨rfl, h⟩ := name_eq hr hr' (List.append_cancel_left h)
  obtain ⟨rfl, h⟩ := number_eq (List.append_cancel_left h)
  obtain ⟨rfl, h⟩ := flag_eq (List.append_cancel_left h)
  obtain ⟨rfl, h⟩ := checksum_eq h
  obtain rfl := error_eq h
  rfl

example : (Report.mk 20 (some "C_CLOSE") 20 false (some [0, 255]) (some "bad checksum")).line =
    "\x7b\"offset\":20,\"opcode\":\"C_CLOSE\",\"length\":20,\"valid\":false," ++
      "\"checksum\":\"00ff\",\"error\":\"bad checksum\"\x7d" := by
  decide

end Capture.Report

end Arbiter
