import FeeDistribution.Proofs.HexTexts
import Mathlib.Data.String.Basic

/-!
# Which texts name an account

An account is written as 64 digits in lower case and read from 64 digits of either case.  A text is
judged by its bytes, so that one character may count as several of the 64, and nothing is said of it
but the first thing that is wrong with it.  This file says which texts are accepted, which account
they name, and that accounts sort as their written forms do (`Account.hex_codec`).

## Strategy

Only digits of one byte get through: a longer character ends in a byte above all digits
(`Account.isDigit_of_bytes`).  From there on bytes and characters are the same, and reading is undone
by writing up to the case of the digits (`Text.Hex.encode_of_decode?`).  Hence the one equivalence
from which the rest follows: a text names an account exactly if it is, in lower case, what that
account is written as (`Account.ofHexDigits_eq_ok_iff`).

The order is carried over one byte at a time: the first half decides unless it is the same, and of
two digits the one with the larger value is the larger character, for the letters come after the
figures.
-/

namespace FeeDistribution

namespace Text.Hex

/-! ## Case -/

/-- A character is a digit if it is one in lower case. -/
theorem isDigit_toLower {c : Char} : IsDigit c.toLower ↔ IsDigit c := by
  by_cases hascii : c.toNat < 128
  · have hchecked : ∀ code < 128,
        (IsDigit (Char.ofNat code).toLower ↔ IsDigit (Char.ofNat code)) := by
      decide
    have hcase := hchecked c.toNat hascii
    rwa [Char.ofNat_toNat] at hcase
  · have hupper : ¬ (c.val ≥ 'A'.val ∧ c.val ≤ 'Z'.val) := by
      rintro ⟨_, hle⟩
      exact hascii (Nat.lt_of_le_of_lt hle (by decide))
    have hsame : c.toLower = c := dif_neg hupper
    rw [hsame]

/-- A digit that was read is written in lower case. -/
theorem digit_of_value? {c : Char} {value : Nat} (hvalue : value? c.toNat = some value) :
    value < 16 ∧ digit value = c.toLower := by
  have hchecked : ∀ code < 128, ∀ value ∈ value? code,
      value < 16 ∧ digit value = (Char.ofNat code).toLower := by
    decide
  have hdigit : IsDigit c := isSome_value?_iff.mp (Option.isSome_of_mem hvalue)
  rw [isDigit_iff_toNat] at hdigit
  have hread := hchecked c.toNat (by omega) value hvalue
  rwa [Char.ofNat_toNat] at hread

/-! ## Reading back -/

/-- Digits in pairs spell bytes. -/
theorem exists_decode? : ∀ {codes : List Nat}, codes.length % 2 = 0 →
    (∀ code ∈ codes, (value? code).isSome) →
    ∃ bytes, decode? codes = some bytes ∧ 2 * bytes.length = codes.length
  | [], _, _ => ⟨[], rfl, rfl⟩
  | high :: low :: rest, heven, hdigits => by
      simp only [List.forall_mem_cons, Option.isSome_iff_exists] at hdigits
      obtain ⟨⟨h, hhigh⟩, ⟨l, hlow⟩, hrest⟩ := hdigits
      have hshorter : rest.length % 2 = 0 := by
        simp only [List.length_cons] at heven
        omega
      obtain ⟨bytes, hbytes, hlength⟩ :=
        exists_decode? hshorter fun code hcode => Option.isSome_iff_exists.mpr (hrest code hcode)
      refine ⟨UInt8.ofNat (16 * h + l) :: bytes, ?_, ?_⟩
      · rw [decode?_cons hhigh hlow, hbytes]
        rfl
      · simp only [List.length_cons]
        omega

/-- Bytes that were read are written with the same digits, in lower case. -/
theorem encode_of_decode? : ∀ {text : List Char} {bytes : List UInt8},
    decode? (text.map Char.toNat) = some bytes → encode bytes = text.map Char.toLower
  | [], _, hdecode => by
      cases hdecode
      rfl
  | high :: low :: rest, bytes, hdecode => by
      simp only [List.map_cons, decode?, Option.bind_eq_bind, Option.bind_eq_some_iff] at hdecode
      obtain ⟨h, hhigh, l, hlow, tail, htail, hbytes⟩ := hdecode
      obtain rfl : UInt8.ofNat (16 * h + l) :: tail = bytes := Option.some.inj hbytes
      obtain ⟨hh, hfirst⟩ := digit_of_value? hhigh
      obtain ⟨hl, hsecond⟩ := digit_of_value? hlow
      have hbyte : (UInt8.ofNat (16 * h + l)).toNat = 16 * h + l := by
        rw [UInt8.toNat_ofNat']
        omega
      have hhalves : (16 * h + l) / 16 = h ∧ (16 * h + l) % 16 = l := by omega
      rw [encode_cons, hbyte, hhalves.1, hhalves.2, hfirst, hsecond, encode_of_decode? htail]
      rfl

/-! ## Order -/

theorem digit_lt_digit {first second : Nat} (hfirst : first < 16) (hsecond : second < 16) :
    digit first < digit second ↔ first < second := by
  have hchecked : ∀ first < 16, ∀ second < 16, digit first < digit second ↔ first < second := by
    decide
  exact hchecked first hfirst second hsecond

theorem digit_inj {first second : Nat} (hfirst : first < 16) (hsecond : second < 16) :
    digit first = digit second ↔ first = second := by
  have hchecked : ∀ first < 16, ∀ second < 16, digit first = digit second ↔ first = second := by
    decide
  exact hchecked first hfirst second hsecond

/-- Digits sort as the bytes do that they spell. -/
theorem encode_lt_encode {first second : List UInt8} :
    encode first < encode second ↔ first < second := by
  induction first generalizing second with
  | nil => cases second <;> simp [encode, ofByte]
  | cons byte bytes ih =>
      cases second with
      | nil => simp [encode]
      | cons other others =>
          have hbyte : byte.toNat < 256 := byte.toNat_lt
          have hother : other.toNat < 256 := other.toNat_lt
          have hlt : byte < other ↔ byte.toNat / 16 < other.toNat / 16 ∨
              byte.toNat / 16 = other.toNat / 16 ∧ byte.toNat % 16 < other.toNat % 16 := by
            rw [UInt8.lt_iff_toNat_lt]
            omega
          have heq : byte = other ↔ byte.toNat / 16 = other.toNat / 16 ∧
              byte.toNat % 16 = other.toNat % 16 := by
            rw [← UInt8.toNat_inj]
            omega
          rw [encode_cons, encode_cons, List.cons_lt_cons_iff, List.cons_lt_cons_iff,
            List.cons_lt_cons_iff, digit_lt_digit (by omega) (by omega),
            digit_lt_digit (by omega) (by omega), digit_inj (by omega) (by omega),
            digit_inj (by omega) (by omega), ih, hlt, heq, and_or_left, ← or_assoc, and_assoc]

end Text.Hex

namespace Account

/-! ## Texts -/

theorem length_textBytes (text : String) : (textBytes text.toList).length = text.utf8ByteSize := by
  have hbytes : text.toByteArray = text.toList.utf8Encode := by
    rw [← String.toByteArray_ofList, String.ofList_toList]
  rw [textBytes, List.length_map, ← String.size_toByteArray, hbytes, List.utf8Encode,
    List.size_toByteArray]

/-- A text of digits has as many bytes as digits. -/
theorem utf8ByteSize_of_digits {text : String} (hdigits : ∀ c ∈ text.toList, Text.Hex.IsDigit c) :
    text.utf8ByteSize = text.toList.length := by
  rw [← length_textBytes, textBytes_of_digits hdigits, List.length_map]

theorem length_hexDigits (account : Account) : account.hexDigits.length = 64 := by
  rw [hexDigits, Text.Hex.length_encode, account.length_bytes]

theorem hexDigits_inj {first second : Account} (hdigits : first.hexDigits = second.hexDigits) :
    first = second := by
  have htext : first.hex = second.hex := congrArg String.ofList hdigits
  exact Option.some.inj (first.ofHex?_hex.symm.trans ((congrArg ofHex? htext).trans
    second.ofHex?_hex))

theorem ofHexDigits_hex (account : Account) : ofHexDigits account.hex.toList = .ok account := by
  have hread := account.ofHex?_hex
  unfold ofHex? at hread
  cases hnamed : ofHexDigits account.hex.toList with
  | error fault =>
      rw [hnamed] at hread
      cases hread
  | ok named =>
      rw [hnamed] at hread
      rw [Option.some.inj hread]

/-- A character of which every byte is a digit is a digit itself, for a longer character has a byte
above all digits. -/
theorem isDigit_of_bytes {c : Char}
    (hbytes : ∀ byte ∈ String.utf8EncodeChar c, (Text.Hex.value? byte.toNat).isSome) :
    Text.Hex.IsDigit c := by
  by_cases hascii : c.toNat ≤ 127
  · have hcode : c.toNat % 256 = c.toNat := Nat.mod_eq_of_lt (by omega)
    have hbyte := hbytes c.val.toUInt8 (by
      rw [String.utf8EncodeChar_eq_singleton (Char.utf8Size_eq_one_iff.mpr hascii)]
      exact List.mem_singleton_self _)
    rw [← Text.Hex.isSome_value?_iff, ← hcode]
    exact hbyte
  · obtain ⟨byte, hmem, hhigh⟩ : ∃ byte ∈ String.utf8EncodeChar c, 128 ≤ byte.toNat := by
      -- it ends in a continuation byte
      refine ⟨UInt8.ofNat (c.val.toNat % 64 + 128), ?_, ?_⟩
      · rw [String.utf8EncodeChar, if_neg (show ¬ c.val.toNat ≤ 127 from hascii)]
        split
        · simp
        · split <;> simp
      · rw [UInt8.toNat_ofNat']
        omega
    have hnone : Text.Hex.value? byte.toNat = none := by
      rw [Text.Hex.value?, if_neg (by omega), if_neg (by omega), if_neg (by omega)]
    have hsome := hbytes byte hmem
    rw [hnone] at hsome
    cases hsome

theorem isDigit_of_textBytes {text : List Char}
    (hbytes : ∀ code ∈ textBytes text, (Text.Hex.value? code).isSome) {c : Char} (hc : c ∈ text) :
    Text.Hex.IsDigit c :=
  isDigit_of_bytes fun _ hbyte =>
    hbytes _ (List.mem_map_of_mem (List.mem_flatMap.mpr ⟨c, hc, hbyte⟩))

/-- A text that names an account has only digits, and is the written form of that account but for
their case. -/
theorem ofHexDigits_ok {text : List Char} {account : Account}
    (hread : ofHexDigits text = .ok account) :
    (∀ c ∈ text, Text.Hex.IsDigit c) ∧ account.hexDigits = text.map Char.toLower := by
  unfold ofHexDigits at hread
  dsimp only at hread
  split at hread
  · cases hread
  split at hread
  · cases hread
  split at hread
  · cases hread
  rename_i hgood
  split at hread
  · rename_i named hnamed
    obtain rfl : named = account := Except.ok.inj hread
    have hdigits : ∀ c ∈ text, Text.Hex.IsDigit c :=
      fun c => isDigit_of_textBytes (firstBadDigit?_eq_none.mp hgood)
    rw [textBytes_of_digits hdigits] at hnamed
    obtain ⟨bytes, hdecode, hbytes⟩ := Option.bind_eq_some_iff.mp hnamed
    refine ⟨hdigits, ?_⟩
    unfold ofBytes? at hbytes
    split at hbytes
    · obtain rfl := Option.some.inj hbytes
      exact Text.Hex.encode_of_decode? hdecode
    · cases hbytes
  · cases hread

/-- Every text of 64 digits names an account. -/
theorem exists_ofHexDigits {text : List Char} (hlength : text.length = 64)
    (hdigits : ∀ c ∈ text, Text.Hex.IsDigit c) : ∃ account, ofHexDigits text = .ok account := by
  have hcodes : (text.map Char.toNat).length = 64 := by rw [List.length_map, hlength]
  have hvalues : ∀ code ∈ text.map Char.toNat, (Text.Hex.value? code).isSome := by
    rw [List.forall_mem_map]
    exact fun c hc => Text.Hex.isSome_value?_iff.mpr (hdigits c hc)
  obtain ⟨bytes, hdecode, hbytes⟩ := Text.Hex.exists_decode? (by rw [hcodes]) hvalues
  have haccount : ofBytes? bytes = some ⟨bytes, by omega⟩ := dif_pos _
  refine ⟨⟨bytes, by omega⟩, ?_⟩
  unfold ofHexDigits
  rw [textBytes_of_digits hdigits]
  simp [hcodes, firstBadDigit?_eq_none.mpr hvalues, hdecode, haccount]

/-- A text names an account exactly if it is the written form of that account in lower case. -/
theorem ofHexDigits_eq_ok_iff {text : List Char} {account : Account} :
    ofHexDigits text = .ok account ↔ account.hexDigits = text.map Char.toLower := by
  refine ⟨fun hread => (ofHexDigits_ok hread).2, fun hlower => ?_⟩
  have hlength : text.length = 64 := by
    rw [← account.length_hexDigits, hlower, List.length_map]
  have hdigits : ∀ c ∈ text, Text.Hex.IsDigit c := by
    intro c hc
    rw [← Text.Hex.isDigit_toLower]
    have hmem : c.toLower ∈ account.hexDigits := hlower ▸ List.mem_map_of_mem hc
    exact Text.Hex.isDigit_of_mem_encode hmem
  obtain ⟨named, hnamed⟩ := exists_ofHexDigits hlength hdigits
  obtain rfl : named = account := hexDigits_inj ((ofHexDigits_ok hnamed).2.trans hlower.symm)
  exact hnamed

theorem hex_lt_hex {first second : Account} :
    first.hex < second.hex ↔ first.bytes < second.bytes := by
  show first.hex.toList < second.hex.toList ↔ _
  rw [hex, hex, String.toList_ofList, String.toList_ofList]
  exact Text.Hex.encode_lt_encode

/-- Accounts compare as their written forms do. -/
theorem compare_hex (first second : Account) :
    compare first second = compare first.hex second.hex := by
  cases hcompare : compare first second with
  | lt => exact (compare_lt_iff_lt.mpr (hex_lt_hex.mpr (compare_eq_lt.mp hcompare))).symm
  | eq =>
      obtain rfl := Std.compare_eq_iff_eq.mp hcompare
      exact (compare_eq_iff_eq.mpr rfl).symm
  | gt =>
      have hless : compare second first = .lt := Std.OrientedCmp.gt_iff_lt.mp hcompare
      exact (compare_gt_iff_gt.mpr (hex_lt_hex.mpr (compare_eq_lt.mp hless))).symm

/-- A text names an account exactly if it has 64 bytes and they are all hexadecimal digits, of either
case; the account that it names is then written as the text in lower case, and no other is.  Every
account is named by its written form, and accounts stand in the order of their written forms. -/
theorem hex_codec :
    (∀ text : String, (∃ account, ofHexDigits text.toList = .ok account) ↔
        text.utf8ByteSize = 64 ∧ ∀ c ∈ text.toList, Text.Hex.IsDigit c) ∧
      (∀ (text : String) (account : Account),
        ofHexDigits text.toList = .ok account ↔ account.hex = text.toLower) ∧
      (∀ account : Account, ofHexDigits account.hex.toList = .ok account) ∧
      ∀ first second : Account, compare first second = compare first.hex second.hex := by
  refine ⟨fun text => ⟨?_, ?_⟩, fun text account => ?_, fun account => ?_, compare_hex⟩
  · rintro ⟨account, hread⟩
    obtain ⟨hdigits, hlower⟩ := ofHexDigits_ok hread
    refine ⟨?_, hdigits⟩
    rw [utf8ByteSize_of_digits hdigits, ← account.length_hexDigits, hlower, List.length_map]
  · rintro ⟨hsize, hdigits⟩
    exact exists_ofHexDigits ((utf8ByteSize_of_digits hdigits).symm.trans hsize) hdigits
  · have hlower : text.toLower.toList = text.toList.map Char.toLower := String.toList_map
    rw [ofHexDigits_eq_ok_iff, ← String.toList_inj, hex, String.toList_ofList, hlower]
  · exact account.ofHexDigits_hex

end Account

end FeeDistribution
