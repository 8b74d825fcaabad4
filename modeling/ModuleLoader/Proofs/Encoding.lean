import Mathlib.Algebra.Group.Nat.Defs
import Mathlib.Tactic.Common
import ModuleLoader.Text.Utf8

/-!
# Decoding undoes encoding

Bytes are the text whose encoding they are, and other bytes are refused.

* `Utf8.continuation`, `Utf8.lead`, `Utf8.extra`, `Utf8.encodeChar_eq` : the last bytes of a
  character, the first one, and the number of those that follow it;
* `Utf8.Partial.Completes`, `Utf8.begin?_completes` : the codes that go on from what was read, and
  those that a first byte begins;
* `Utf8.resume`, `Utf8.Resumes`, `Utf8.decodeFrom_some` : what follows the first bytes of a
  character;
* `Utf8.decodeFrom_cons`, `Utf8.decode_eq_ok` : one character, and the whole text.
-/

namespace ModuleLoader.Text.Utf8

/-! ## The bytes of a character -/

/-- The last bytes of a code, six bits each. -/
def continuation : (count code : Nat) → List UInt8
  | 0, _ => []
  | count + 1, code => (0x80 + code / 64 ^ count % 64).toUInt8 :: continuation count code

def lead (code : Nat) : Nat :=
  if code < 0x80 then code
  else if code < 0x800 then 0xC0 + code / 64
  else if code < 0x10000 then 0xE0 + code / 4096
  else 0xF0 + code / 262144

def extra (code : Nat) : Nat :=
  if code < 0x80 then 0 else if code < 0x800 then 1 else if code < 0x10000 then 2 else 3

theorem encodeChar_eq (c : Char) :
    encodeChar c = (lead c.toNat).toUInt8 :: continuation (extra c.toNat) c.toNat := by
  unfold encodeChar lead extra
  dsimp only
  split_ifs <;> simp [continuation]

theorem toNat_lead {code : Nat} (h : code.isValidChar) :
    (lead code).toUInt8.toNat = lead code := by
  have hlead : lead code < 256 := by
    unfold Nat.isValidChar at h
    unfold lead
    split_ifs <;> omega
  rw [Nat.toUInt8, UInt8.toNat_ofNat', Nat.mod_eq_of_lt hlead]

/-! ## A character begun -/

/-- The code begins with what was read of a character. -/
def Partial.Completes (begun : Partial) (code : Nat) : Prop :=
  code / 64 ^ (begun.owed + 1) = begun.value ∧
    begun.low ≤ 0x80 + code / 64 ^ begun.owed % 64 ∧
    0x80 + code / 64 ^ begun.owed % 64 ≤ begun.high

/-- The first byte and the number of the others tell the bounds of a code beyond ASCII. -/
theorem lead_extra_iff {byte : Nat} (hbyte : 0x80 ≤ byte) (count code : Nat) :
    lead code = byte ∧ extra code = count ↔
      0x80 ≤ code ∧ code < 0x800 ∧ 0xC0 + code / 64 = byte ∧ count = 1 ∨
      0x800 ≤ code ∧ code < 0x10000 ∧ 0xE0 + code / 4096 = byte ∧ count = 2 ∨
      0x10000 ≤ code ∧ 0xF0 + code / 262144 = byte ∧ count = 3 := by
  unfold lead extra
  split_ifs <;> omega

/-- What a first byte beyond ASCII begins are the characters with that first byte. -/
theorem begin?_completes (offset : Nat) {byte : Nat} (hbyte : 0x80 ≤ byte) (count code : Nat) :
    (∃ begun, begin? offset byte = some begun ∧ begun.owed + 1 = count ∧ begun.Completes code) ↔
      code.isValidChar ∧ lead code = byte ∧ extra code = count := by
  rw [lead_extra_iff hbyte]
  unfold begin? Partial.Completes Nat.isValidChar
  split_ifs
  all_goals
    simp only [Option.some.injEq, exists_eq_left', false_and, exists_false, false_iff,
      not_and, Nat.reduceAdd, Nat.reducePow]
    omega

/-- A byte is one that may come next exactly if it gives the next six bits of some code. -/
theorem Partial.completes_iff {begun : Partial} (hlow : 0x80 ≤ begun.low)
    (hhigh : begun.high ≤ 0xBF) (byte : UInt8) (code : Nat) :
    ¬ (byte.toNat < begun.low ∨ begun.high < byte.toNat) ∧
        code / 64 ^ begun.owed = begun.value * 64 + (byte.toNat - 0x80) ↔
      byte = (0x80 + code / 64 ^ begun.owed % 64).toUInt8 ∧ begun.Completes code := by
  unfold Completes
  rw [Nat.pow_succ, ← Nat.div_div_eq_div_mul, ← UInt8.toNat_inj, Nat.toUInt8, UInt8.toNat_ofNat']
  omega

/-- Bytes after the second of a character are not bounded by those before. -/
theorem Partial.completes_next {start owed value code : Nat} :
    Partial.Completes ⟨start, owed, 0x80, 0xBF, value⟩ code ↔ code / 64 ^ (owed + 1) = value := by
  unfold Completes
  dsimp only
  omega

theorem map_cons_eq_ok {c : Char} {result : Except Fault (List Char)} {text : List Char} :
    (c :: ·) <$> result = .ok text ↔ ∃ behind, text = c :: behind ∧ result = .ok behind := by
  cases result with
  | error fault => exact iff_of_false (fun h => by cases h) (fun ⟨_, _, h⟩ => by cases h)
  | ok behind =>
    constructor
    · rintro ⟨⟩
      exact ⟨behind, rfl, rfl⟩
    · rintro ⟨_, rfl, ⟨⟩⟩
      rfl

/-- The text of the bytes from `offset` on, when so many of them still belong to a character. -/
def resume (offset start : Nat) : (owed value : Nat) → List UInt8 → Except Fault (List Char)
  | 0, value, bytes => (Char.ofNat value :: ·) <$> decodeFrom offset none bytes
  | owed + 1, value, bytes => decodeFrom offset (some ⟨start, owed, 0x80, 0xBF, value⟩) bytes

theorem decodeFrom_some_cons (offset : Nat) (begun : Partial) (byte : UInt8)
    (bytes : List UInt8) :
    decodeFrom offset (some begun) (byte :: bytes) =
      if byte.toNat < begun.low ∨ begun.high < byte.toNat then
        .error ⟨.continuation, begun.start⟩
      else
        resume (offset + 1) begun.start begun.owed (begun.value * 64 + (byte.toNat - 0x80))
          bytes := by
  obtain ⟨start, owed, low, high, value⟩ := begun
  rw [decodeFrom]
  cases owed <;> rfl

/-- The bytes read on from a character are those that it owes and then those of a text. -/
def Resumes (offset : Nat) (owed : Nat) (bytes : List UInt8) (text : List Char)
    (begins : Nat → Prop) : Prop :=
  ∃ code rest behind, bytes = continuation owed code ++ rest ∧ begins code ∧
    text = Char.ofNat code :: behind ∧ decodeFrom (offset + owed) none rest = .ok behind

variable {offset : Nat} {bytes : List UInt8} {text : List Char}

theorem decodeFrom_some_of_resume {begun : Partial} (hlow : 0x80 ≤ begun.low)
    (hhigh : begun.high ≤ 0xBF)
    (h : ∀ (bytes : List UInt8) (value : Nat),
      resume (offset + 1) begun.start begun.owed value bytes = .ok text ↔
        Resumes (offset + 1) begun.owed bytes text (fun code => code / 64 ^ begun.owed = value)) :
    decodeFrom offset (some begun) bytes = .ok text ↔
      Resumes offset (begun.owed + 1) bytes text begun.Completes := by
  cases bytes with
  | nil =>
    refine iff_of_false (fun h => by cases h) ?_
    rintro ⟨code, rest, behind, hbytes, -⟩
    cases hbytes
  | cons byte bytes =>
    have hnext (code : Nat) := Partial.completes_iff hlow hhigh byte code
    have hoffset : offset + (begun.owed + 1) = offset + 1 + begun.owed := by omega
    rw [decodeFrom_some_cons]
    split
    · rename_i hbounds
      refine iff_of_false (fun h => by cases h) ?_
      rintro ⟨code, rest, behind, hbytes, hcompletes, -⟩
      exact ((hnext code).2 ⟨(List.cons.inj hbytes).1, hcompletes⟩).1 hbounds
    · rename_i hbounds
      rw [h]
      constructor
      · rintro ⟨code, rest, behind, rfl, hcode, htext, hrest⟩
        obtain ⟨hbyte, hcompletes⟩ := (hnext code).1 ⟨hbounds, hcode⟩
        exact ⟨code, rest, behind, by rw [hbyte]; rfl, hcompletes, htext, hoffset ▸ hrest⟩
      · rintro ⟨code, rest, behind, hbytes, hcompletes, htext, hrest⟩
        obtain ⟨hbyte, hmore⟩ := List.cons.inj hbytes
        exact ⟨code, rest, behind, hmore, ((hnext code).2 ⟨hbyte, hcompletes⟩).2, htext,
          hoffset ▸ hrest⟩

theorem resume_eq_ok (offset start owed value : Nat) (bytes : List UInt8) :
    resume offset start owed value bytes = .ok text ↔
      Resumes offset owed bytes text (fun code => code / 64 ^ owed = value) := by
  induction owed generalizing offset value bytes with
  | zero =>
    rw [resume, map_cons_eq_ok]
    constructor
    · rintro ⟨behind, htext, hrest⟩
      exact ⟨value, bytes, behind, rfl, Nat.div_one value, htext, hrest⟩
    · rintro ⟨code, rest, behind, rfl, hcode, htext, hrest⟩
      rw [Nat.pow_zero, Nat.div_one] at hcode
      exact ⟨behind, hcode ▸ htext, hrest⟩
  | succ owed ih =>
    rw [resume, decodeFrom_some_of_resume (Nat.le_refl _) (Nat.le_refl _)
      (fun bytes value => ih (offset + 1) value bytes)]
    simp only [Resumes, Partial.completes_next]

/-- After the first bytes of a character come its last bytes. -/
theorem decodeFrom_some {begun : Partial} (hlow : 0x80 ≤ begun.low) (hhigh : begun.high ≤ 0xBF) :
    decodeFrom offset (some begun) bytes = .ok text ↔
      Resumes offset (begun.owed + 1) bytes text begun.Completes :=
  decodeFrom_some_of_resume hlow hhigh
    (fun bytes value => resume_eq_ok (offset + 1) begun.start begun.owed value bytes)

/-! ## One character, and all of them -/

theorem begin?_bounds {byte : Nat} {begun : Partial} (h : begin? offset byte = some begun) :
    0x80 ≤ begun.low ∧ begun.high ≤ 0xBF := by
  unfold begin? at h
  split_ifs at h <;> cases h <;> exact ⟨Nat.le_of_ble_eq_true rfl, Nat.le_of_ble_eq_true rfl⟩

theorem decodeFrom_cons {byte : UInt8} :
    decodeFrom offset none (byte :: bytes) = .ok text ↔
      ∃ count, Resumes (offset + 1) count bytes text (fun code =>
        code.isValidChar ∧ lead code = byte.toNat ∧ extra code = count) := by
  rw [decodeFrom]
  split
  · rename_i hbyte
    rw [map_cons_eq_ok]
    constructor
    · rintro ⟨behind, htext, hrest⟩
      have hcode : byte.toNat.isValidChar := Or.inl (by omega)
      exact ⟨0, byte.toNat, bytes, behind, rfl, ⟨hcode, if_pos hbyte, if_pos hbyte⟩, htext, hrest⟩
    · rintro ⟨count, code, rest, behind, rfl, ⟨hcode, hlead, hextra⟩, htext, hrest⟩
      have hascii : code < 0x80 := by
        unfold lead at hlead
        split_ifs at hlead <;> omega
      rw [lead, if_pos hascii] at hlead
      rw [extra, if_pos hascii] at hextra
      subst hextra hlead
      exact ⟨behind, htext, hrest⟩
  · rename_i hbyte
    have hbegin (count code : Nat) :=
      begin?_completes offset (Nat.le_of_not_lt hbyte) count code
    split
    · rename_i hnone
      refine iff_of_false (fun h => by cases h) ?_
      rintro ⟨count, code, rest, behind, -, hcode, -⟩
      obtain ⟨begun, hbegun, -⟩ := (hbegin count code).2 hcode
      rw [hnone] at hbegun
      cases hbegun
    · rename_i begun hbegun
      obtain ⟨hlow, hhigh⟩ := begin?_bounds hbegun
      rw [decodeFrom_some hlow hhigh]
      constructor
      · rintro ⟨code, rest, behind, hbytes, hcompletes, htext, hrest⟩
        exact ⟨_, code, rest, behind, hbytes, (hbegin _ code).1 ⟨begun, hbegun, rfl, hcompletes⟩,
          htext, hrest⟩
      · rintro ⟨count, code, rest, behind, hbytes, hcode, htext, hrest⟩
        obtain ⟨other, hother, rfl, hcompletes⟩ := (hbegin count code).2 hcode
        obtain rfl := Option.some.inj (hbegun.symm.trans hother)
        exact ⟨code, rest, behind, hbytes, hcompletes, htext, hrest⟩

theorem decodeFrom_character {byte : UInt8} :
    decodeFrom offset none (byte :: bytes) = .ok text ↔
      ∃ c rest behind, byte :: bytes = encodeChar c ++ rest ∧ text = c :: behind ∧
        decodeFrom (offset + 1 + extra c.toNat) none rest = .ok behind := by
  rw [decodeFrom_cons]
  constructor
  · rintro ⟨_, code, rest, behind, rfl, ⟨hcode, hlead, rfl⟩, htext, hrest⟩
    have hc : (Char.ofNat code).toNat = code := by
      rw [Char.ofNat, dif_pos hcode]
      rfl
    refine ⟨Char.ofNat code, rest, behind, ?_, htext, hc.symm ▸ hrest⟩
    have hbyte : byte = (lead code).toUInt8 := by
      rw [← UInt8.toNat_inj, toNat_lead hcode, hlead]
    rw [encodeChar_eq, hc, hbyte, List.cons_append]
  · rintro ⟨c, rest, behind, hbytes, htext, hrest⟩
    rw [encodeChar_eq, List.cons_append] at hbytes
    obtain ⟨hbyte, hmore⟩ := List.cons.inj hbytes
    have hcode : c.toNat.isValidChar := c.valid
    refine ⟨_, c.toNat, rest, behind, hmore, ⟨hcode, ?_, rfl⟩, ?_, hrest⟩
    · rw [hbyte, toNat_lead hcode]
    · rw [Char.ofNat_toNat]
      exact htext

theorem encode_cons (c : Char) (text : List Char) :
    encode (c :: text) = encodeChar c ++ encode text := rfl

theorem decodeFrom_eq_ok :
    decodeFrom offset none bytes = .ok text ↔ bytes = encode text := by
  -- The text is as good as the bytes to induct on: each step takes one character off it.
  induction text generalizing offset bytes with
  | nil =>
    cases bytes with
    | nil => exact iff_of_true rfl rfl
    | cons byte bytes =>
      rw [decodeFrom_character]
      exact iff_of_false (fun ⟨_, _, _, _, h, _⟩ => by cases h) (fun h => by cases h)
  | cons c text ih =>
    cases bytes with
    | nil =>
      refine iff_of_false (fun h => by cases h) (fun h => ?_)
      rw [encode_cons, encodeChar_eq] at h
      cases h
    | cons byte bytes =>
      rw [decodeFrom_character, encode_cons]
      constructor
      · rintro ⟨_, rest, _, hbytes, ⟨⟩, hrest⟩
        rw [hbytes, ih.1 hrest]
      · intro hbytes
        exact ⟨c, encode text, text, hbytes, rfl, ih.2 rfl⟩

/-- Bytes are a text exactly if they are its encoding. -/
theorem decode_eq_ok : decode bytes = .ok text ↔ bytes = encode text := decodeFrom_eq_ok

end ModuleLoader.Text.Utf8
