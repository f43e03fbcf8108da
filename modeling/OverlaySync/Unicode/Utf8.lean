/-! # Bytes as UTF-8 text

Files and the output of programs are bytes. `decode?` reads them strictly, as files are read;
`decodeLossy` reads them as diagnostics are read, writing U+FFFD for every maximal run of bytes that
starts a character without completing one. -/

namespace OverlaySync.Unicode

/-- The text that the bytes encode, if they are valid UTF-8. -/
def decode? (bytes : ByteArray) : Option String :=
  String.fromUTF8? bytes

/-- Every text reads back from its bytes. -/
@[simp] theorem decode?_toUTF8 (s : String) : decode? s.toUTF8 = some s := by
  simp [decode?, String.fromUTF8?, String.fromUTF8, s.isValidUTF8]

/-- Bytes that read as a text are that text's bytes. -/
theorem eq_toUTF8_of_decode? {bytes : ByteArray} {s : String} (h : decode? bytes = some s) :
    bytes = s.toUTF8 := by
  unfold decode? String.fromUTF8? at h
  split at h
  · cases h; rfl
  · cases h

/-- A byte that continues a character: `10xxxxxx`. -/
def isContinuation (b : UInt8) : Bool :=
  decide (0x80 ≤ b) && decide (b ≤ 0xBF)

/-- The replacement character, U+FFFD. -/
def replacement : Char := '\uFFFD'

/-- The bounds of the second byte after a first byte that starts a longer character. They exclude
overlong forms, surrogates and code points beyond U+10FFFF. -/
def secondBounds (b : UInt8) : UInt8 × UInt8 :=
  if b = 0xE0 then (0xA0, 0xBF)
  else if b = 0xED then (0x80, 0x9F)
  else if b = 0xF0 then (0x90, 0xBF)
  else if b = 0xF4 then (0x80, 0x8F)
  else (0x80, 0xBF)

/-- Whether `c` may follow the first byte `b` of a longer character. -/
def isSecond (b c : UInt8) : Bool :=
  decide ((secondBounds b).1 ≤ c) && decide (c ≤ (secondBounds b).2)

/-- The six payload bits of a continuation byte. -/
private def payload (b : UInt8) : Nat := b.toNat % 64

/-- Decode bytes, writing U+FFFD for every maximal run that starts a character and does not complete
it, and for every byte that starts none. -/
def decodeLossyBytes : List UInt8 → List Char
  | [] => []
  | b :: bs =>
    if b < 0x80 then Char.ofNat b.toNat :: decodeLossyBytes bs
    else if b < 0xC2 || 0xF4 < b then replacement :: decodeLossyBytes bs
    else match bs with
      | [] => [replacement]
      | c :: cs =>
        if !isSecond b c then replacement :: decodeLossyBytes (c :: cs)
        else if b < 0xE0 then
          Char.ofNat (b.toNat % 32 * 64 + payload c) :: decodeLossyBytes cs
        else match cs with
          | [] => [replacement]
          | d :: ds =>
            if !isContinuation d then replacement :: decodeLossyBytes (d :: ds)
            else if b < 0xF0 then
              Char.ofNat ((b.toNat % 16 * 64 + payload c) * 64 + payload d) :: decodeLossyBytes ds
            else match ds with
              | [] => [replacement]
              | e :: es =>
                if !isContinuation e then replacement :: decodeLossyBytes (e :: es)
                else
                  Char.ofNat (((b.toNat % 8 * 64 + payload c) * 64 + payload d) * 64 + payload e) ::
                    decodeLossyBytes es

/-- The text of bytes that need not be valid UTF-8. -/
def decodeLossy (bytes : ByteArray) : String :=
  String.ofList (decodeLossyBytes bytes.toList)

end OverlaySync.Unicode
