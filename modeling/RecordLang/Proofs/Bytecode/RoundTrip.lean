import Mathlib.Tactic.MkIffOfInductiveProp
import Mathlib.Tactic.Ring
import RecordLang.Bytecode.Binary

/-! # Reading bytes that have been written

Each reader takes exactly the bytes that its writer has put there, whatever follows them, and finds
the end of the input on any part of them. This passes from the parts of bytecode to the whole. What
is written has to fit: numbers, and the lengths of texts and lists, are below `2 ^ 64`.
-/

namespace RecordLang

namespace Binary

variable {α β : Type}

/-- From an input that begins with `bytes` the reader takes these and yields `a`; on an input that
ends within `bytes` it fails for the end of the input. -/
structure Reads (read : Reader α) (bytes : Bytes) (a : α) : Prop where
  whole : ∀ rest, read (bytes ++ rest) = .ok (a, rest)
  part : ∀ front, front <+: bytes → front.length < bytes.length → read front = .error .endOfInput

theorem bind_of_ok {read : Reader α} {next : α → Reader β} {s s' : Bytes} {a : α}
    (h : read s = .ok (a, s')) : (read >>= next) s = next a s' := by
  show (read s >>= fun (a, s') => next a s') = _
  rw [h]
  rfl

theorem bind_of_error {read : Reader α} {next : α → Reader β} {s : Bytes} {e : DecodeError}
    (h : read s = .error e) : (read >>= next) s = .error e := by
  show (read s >>= fun (a, s') => next a s') = _
  rw [h]
  rfl

namespace Reads

variable {read : Reader α} {next : α → Reader β} {bytes bytes' : Bytes} {a : α} {b : β}

theorem pure (a : α) : Reads (Pure.pure a) [] a where
  whole _ := rfl
  part _ _ h := absurd h (Nat.not_lt_zero _)

theorem bind (h : Reads read bytes a) (h' : Reads (next a) bytes' b) :
    Reads (read >>= next) (bytes ++ bytes') b where
  whole rest := by rw [List.append_assoc, bind_of_ok (h.whole _), h'.whole]
  part front hfront hlt := by
    obtain ⟨rest, hrest⟩ := hfront
    rcases List.append_eq_append_iff.mp hrest with ⟨more, rfl, _⟩ | ⟨more, rfl, rfl⟩
    · cases more with
      | nil =>
        rw [List.append_nil] at h
        rw [← List.append_nil front, bind_of_ok (h.whole [])]
        apply h'.part _ List.nil_prefix
        simpa using hlt
      | cons x more => exact bind_of_error (h.part front (List.prefix_append _ _) (by simp))
    · rw [bind_of_ok (h.whole more)]
      apply h'.part _ (List.prefix_append _ _)
      simpa using hlt

theorem bindPure (h : Reads read bytes a) (h' : next a = Pure.pure b) :
    Reads (read >>= next) bytes b := by
  have hlast : Reads (next a) [] b := h' ▸ .pure b
  simpa using h.bind hlast

theorem map (f : α → β) (h : Reads read bytes a) :
    Reads (read >>= fun a => Pure.pure (f a)) bytes (f a) := h.bindPure rfl

end Reads

/-! ## Numbers -/

theorem toNat_toUInt8 {n : Nat} (h : n < 256) : n.toUInt8.toNat = n := by
  simpa using h

theorem readByte_reads (b : UInt8) : Reads readByte [b] b where
  whole _ := rfl
  part front _ h := by
    obtain rfl : front = [] := by simpa using h
    rfl

/-- A number of at most `count + 1` bytes, whose last one is at most `limit`. -/
theorem readDigits_reads {limit : Nat} (hlimit : limit < 128) {count n : Nat}
    (h : n < 128 ^ count * (limit + 1)) : Reads (readDigits limit (count + 1)) (number n) n := by
  induction count generalizing n with
  | zero =>
    have hn : n < 128 := by omega
    rw [number, if_pos hn, readDigits]
    apply (readByte_reads _).bindPure
    rw [toNat_toUInt8 (by omega), if_pos hn, if_neg (by simp; omega)]
  | succ count ih =>
    rw [number, readDigits]
    split
    next hn =>
      apply (readByte_reads _).bindPure
      rw [toNat_toUInt8 (by omega), if_pos hn, if_neg (by simp)]
    next hn =>
      have hrest : n / 128 < 128 ^ count * (limit + 1) := by
        apply Nat.div_lt_of_lt_mul
        calc n < 128 ^ (count + 1) * (limit + 1) := h
          _ = 128 * (128 ^ count * (limit + 1)) := by ring
      have hvalue : n % 128 + 128 - 128 + 128 * (n / 128) = n := by omega
      have hread := (ih hrest).map fun m => n % 128 + 128 - 128 + 128 * m
      simp only [hvalue] at hread
      apply (readByte_reads _).bind
      rw [toNat_toUInt8 (by omega), if_neg (by omega)]
      exact hread

theorem readNumber_reads {n : Nat} (h : n < 2 ^ 64) : Reads readNumber (number n) n :=
  readDigits_reads (by decide) h

theorem readChoice_reads {n : Nat} (h : n < 2 ^ 32) : Reads readChoice (number n) n :=
  readDigits_reads (by decide) h

theorem foldSign_lt (n : Int64) : foldSign n < 2 ^ 64 := by
  have h₁ := n.le_toInt
  have h₂ := n.toInt_lt
  unfold foldSign
  split <;> omega

theorem unfoldSign_foldSign (n : Int64) : unfoldSign (foldSign n) = n := by
  have h : (if foldSign n % 2 = 0 then ((foldSign n / 2 : Nat) : Int)
      else -((foldSign n / 2 : Nat) : Int) - 1) = n.toInt := by
    unfold foldSign
    split <;> split <;> omega
  rw [unfoldSign, h, Int64.ofInt_toInt]

theorem length_fixed (n count : Nat) : (fixed n count).length = count := by
  induction count generalizing n with
  | zero => rfl
  | succ count ih => simp [fixed, ih]

theorem unfixed_fixed {n count : Nat} (h : n < 256 ^ count) : unfixed (fixed n count) = n := by
  induction count generalizing n with
  | zero =>
    obtain rfl : n = 0 := by simpa using h
    rfl
  | succ count ih =>
    have hrest : n / 256 < 256 ^ count := Nat.div_lt_of_lt_mul (by rwa [← Nat.pow_succ'])
    have hbyte : (n % 256).toUInt8.toNat = n % 256 := toNat_toUInt8 (by omega)
    have ih := ih hrest
    unfold unfixed at ih ⊢
    rw [fixed, List.foldr_cons, ih, hbyte]
    omega

/-! ## Texts and lists -/

theorem readBytes_reads {bytes : Bytes} {count : Nat} (h : bytes.length = count) :
    Reads (readBytes count) bytes bytes where
  whole rest := by simp [readBytes, ← h]
  part front _ hlt := by
    rw [readBytes]
    simp only [List.length_take]
    rw [if_pos (by omega)]

theorem readText_reads {s : String} (h : s.utf8ByteSize < 2 ^ 64) : Reads readText (text s) s := by
  have hbytes : Reads (readBytes (Text.utf8 s).length) (Text.utf8 s) (Text.utf8 s) :=
    readBytes_reads rfl
  refine (readNumber_reads (by simpa using h)).bind (hbytes.bindPure ?_)
  simp only [Text.ofUtf8?_utf8]

theorem readRow_reads {read : Reader α} {write : α → Bytes} {items : List α}
    (h : ∀ a ∈ items, Reads read (write a) a) :
    Reads (readRow read items.length) (items.flatMap write) items := by
  induction items with
  | nil => exact .pure []
  | cons a items ih =>
    obtain ⟨ha, hitems⟩ := List.forall_mem_cons.mp h
    exact ha.bind ((ih hitems).map _)

theorem readMany_reads {read : Reader α} {write : α → Bytes} {items : List α}
    (hlength : items.length < 2 ^ 64) (h : ∀ a ∈ items, Reads read (write a) a) :
    Reads (readMany read) (many write items) items :=
  (readNumber_reads hlength).bind (readRow_reads h)

end Binary

/-! ## What fits -/

def TextFits (s : String) : Prop := s.utf8ByteSize < 2 ^ 64

def Value.Fits : Value → Prop
  | .string s => TextFits s
  | .object id => id < 2 ^ 64
  | _ => True

def Instruction.Fits : Instruction → Prop
  | .push v => v.Fits
  | .load n | .store n | .jump n | .jumpIfFalse n => n < 2 ^ 64
  | .call s | .getField s | .setField s => TextFits s
  | .alloc fields => fields.length < 2 ^ 64 ∧ ∀ s ∈ fields, TextFits s
  | _ => True

@[mk_iff]
structure Routine.Fits (r : Routine) : Prop where
  name : TextFits r.name
  arity : r.arity < 2 ^ 64
  size : r.code.size < 2 ^ 64
  code : ∀ i ∈ r.code, i.Fits

@[mk_iff]
structure Bytecode.Fits (b : Bytecode) : Prop where
  size : b.length < 2 ^ 64
  routines : ∀ r ∈ b, r.Fits

instance (s : String) : Decidable (TextFits s) := inferInstanceAs (Decidable (_ < _))

instance : (v : Value) → Decidable v.Fits
  | .string s => inferInstanceAs (Decidable (TextFits s))
  | .object id => inferInstanceAs (Decidable (id < 2 ^ 64))
  | .int _ | .double _ | .bool _ | .nil => .isTrue trivial

instance : (i : Instruction) → Decidable i.Fits
  | .push v => inferInstanceAs (Decidable v.Fits)
  | .load n | .store n | .jump n | .jumpIfFalse n => inferInstanceAs (Decidable (n < 2 ^ 64))
  | .call s | .getField s | .setField s => inferInstanceAs (Decidable (TextFits s))
  | .alloc fields => inferInstanceAs (Decidable (fields.length < 2 ^ 64 ∧ ∀ s ∈ fields, TextFits s))
  | .pop | .dup | .swap | .binary _ | .neg | .not | .ret | .write | .read | .length | .charAt
  | .toInt | .toDouble | .toText | .free | .nop => .isTrue trivial

instance (r : Routine) : Decidable r.Fits := decidable_of_iff' _ (Routine.fits_iff r)

instance (b : Bytecode) : Decidable b.Fits := decidable_of_iff' _ (Bytecode.fits_iff b)

namespace Binary

/-! ## Bytecode -/

theorem readChoice_bind {α : Type} {next : Nat → Reader α} {n : Nat} {bytes : Bytes} {a : α}
    (hn : n < 2 ^ 32) (h : Reads (next n) bytes a) :
    Reads (readChoice >>= next) (number n ++ bytes) a := (readChoice_reads hn).bind h

theorem readChoice_pure {α : Type} {next : Nat → Reader α} {n : Nat} {a : α}
    (hn : n < 2 ^ 32) (h : next n = pure a) : Reads (readChoice >>= next) (number n) a :=
  (readChoice_reads hn).bindPure h

theorem readBool_reads (b : Bool) : Reads readBool [if b then 1 else 0] b := by
  cases b <;> exact (readByte_reads _).bindPure rfl

theorem readValue_reads {v : Value} (h : v.Fits) : Reads readValue (value v) v := by
  cases v with
  | int n =>
    have hread := (readNumber_reads (foldSign_lt n)).map fun m => Value.int (unfoldSign m)
    rw [unfoldSign_foldSign] at hread
    exact readChoice_bind (by decide) hread
  | double d =>
    have hread := (readBytes_reads (length_fixed d.bits.toNat 8)).map
      fun bytes => Value.double ⟨(unfixed bytes).toUInt64⟩
    rw [unfixed_fixed d.bits.toNat_lt, Nat.toUInt64_eq, UInt64.ofNat_toNat] at hread
    exact readChoice_bind (by decide) hread
  | bool b => exact readChoice_bind (by decide) ((readBool_reads b).map Value.bool)
  | string s => exact readChoice_bind (by decide) ((readText_reads h).map Value.string)
  | object id => exact readChoice_bind (by decide) ((readNumber_reads h).map Value.object)
  | nil => exact readChoice_pure (by decide) rfl

theorem readInstruction_reads {i : Instruction} (h : i.Fits) :
    Reads readInstruction (instruction i) i := by
  cases i with
  | push v => exact readChoice_bind (by decide) ((readValue_reads h).map Instruction.push)
  | load n => exact readChoice_bind (by decide) ((readNumber_reads h).map Instruction.load)
  | store n => exact readChoice_bind (by decide) ((readNumber_reads h).map Instruction.store)
  | jump t => exact readChoice_bind (by decide) ((readNumber_reads h).map Instruction.jump)
  | jumpIfFalse t =>
    exact readChoice_bind (by decide) ((readNumber_reads h).map Instruction.jumpIfFalse)
  | call name => exact readChoice_bind (by decide) ((readText_reads h).map Instruction.call)
  | getField name =>
    exact readChoice_bind (by decide) ((readText_reads h).map Instruction.getField)
  | setField name =>
    exact readChoice_bind (by decide) ((readText_reads h).map Instruction.setField)
  | alloc fields =>
    have hfields := readMany_reads h.1 fun s hs => readText_reads (h.2 s hs)
    exact readChoice_bind (by decide) (hfields.map Instruction.alloc)
  | binary op => cases op <;> exact readChoice_pure (by decide) rfl
  | _ => exact readChoice_pure (by decide) rfl

theorem readRoutine_reads {r : Routine} (h : r.Fits) : Reads readRoutine (routine r) r := by
  have hcode : Reads (readMany readInstruction) (many instruction r.code.toList) r.code.toList :=
    readMany_reads h.size fun i hi => readInstruction_reads (h.code i (Array.mem_toList_iff.mp hi))
  rw [routine, List.append_assoc]
  exact (readText_reads h.name).bind ((readNumber_reads h.arity).bind (hcode.bindPure rfl))

theorem readBytecode_reads {b : Bytecode} (h : b.Fits) :
    Reads (readMany readRoutine) b.encode b :=
  readMany_reads h.size fun r hr => readRoutine_reads (h.routines r hr)

end Binary

/-- Bytecode that fits is read back as it was written, and what follows it is left alone. -/
theorem Bytecode.encoded_bytecode_reads_back {b : Bytecode} (h : b.Fits) (rest : List UInt8) :
    decode (b.encode ++ rest) = .ok b := by
  rw [decode, (Binary.readBytecode_reads h).whole rest]
  rfl

/-- Bytecode with the greatest word, the least signed word, a double that is no number, and letters
of several bytes. -/
def extremes : Bytecode :=
  [⟨"größe", 2 ^ 64 - 1, #[.push (.int (-9223372036854775808)),
      .push (.double ⟨0xfff8000000000001⟩),
      .push (.string "€𝄞"), .push (.object 18446744073709551615), .alloc ["x", ""],
      .jumpIfFalse 300, .binary .ne, .call "größe", .nop]⟩,
    ⟨"", 0, #[]⟩]

theorem extremes_read_back :
    Bytecode.Fits extremes ∧
      Bytecode.decode (Bytecode.encode extremes ++ [255]) = .ok extremes := by
  have h : Bytecode.Fits extremes := by decide
  exact ⟨h, Bytecode.encoded_bytecode_reads_back h [255]⟩

/-- If any bytes at the end are missing, reading finds the end of the input. -/
theorem Bytecode.cut_bytecode_is_refused {b : Bytecode} (h : b.Fits) {front : List UInt8}
    (hfront : front <+: b.encode) (hcut : front ≠ b.encode) :
    decode front = .error .endOfInput ∧
      DecodeError.endOfInput.message = "Hit the end of buffer, expected more data" := by
  have hlt : front.length < b.encode.length :=
    Nat.lt_of_le_of_ne hfront.length_le fun hlen => hcut (hfront.eq_of_length hlen)
  rw [decode, (Binary.readBytecode_reads h).part front hfront hlt]
  exact ⟨rfl, rfl⟩

theorem letter_cut_in_two_is_refused :
    Bytecode.Fits extremes ∧
      (Bytecode.encode extremes).take 6 = [2, 7, 0x67, 0x72, 0xc3, 0xb6] ∧
      Bytecode.decode [2, 7, 0x67, 0x72, 0xc3] = .error .endOfInput := by
  have h : Bytecode.Fits extremes := by decide
  have hsix : (Bytecode.encode extremes).take 6 = [2, 7, 0x67, 0x72, 0xc3, 0xb6] := by
    decide +kernel
  have hfive : (Bytecode.encode extremes).take 5 = [2, 7, 0x67, 0x72, 0xc3] := by decide +kernel
  have hfront : [2, 7, 0x67, 0x72, 0xc3] <+: Bytecode.encode extremes :=
    hfive ▸ List.take_prefix 5 _
  have hcut : [2, 7, 0x67, 0x72, 0xc3] ≠ Bytecode.encode extremes := by
    intro heq
    rw [← heq] at hsix
    cases hsix
  exact ⟨h, hsix, (Bytecode.cut_bytecode_is_refused h hfront hcut).1⟩

end RecordLang
