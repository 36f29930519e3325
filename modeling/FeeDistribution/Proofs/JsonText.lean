import FeeDistribution.Json.Printer
import FeeDistribution.Json.Reader
import Mathlib.Tactic.SplitIfs

/-!
# Strings and numbers are read as they are written

What the writer puts down for a string or a number, the reader takes off the text again, and leaves
what follows.  A string ends itself.  A number ends where the text goes on with something that can
not belong to it, as it does after every value inside a tree (`Delimited`).
-/

namespace FeeDistribution.Json

variable {rest : List Char}

/-! ## Strings -/

/-- The piece as which a character is read: a control character without a letter of its own is
spelled as a unit. -/
def pieceOf (c : Char) : Piece :=
  if c.toNat < 32 ∧ c ∉ ['\x08', '\t', '\n', '\x0c', '\r'] then .unit c.toNat else .char c

theorem hexValue?_fourDigits {code : Nat} (hcode : code < 32) :
    hexValue? (fourDigits code) = some code := by
  revert code
  decide

theorem readPieces_letter {letter c : Char} (hletter : unescape? letter = some c) :
    readPieces ('\\' :: letter :: rest) =
      (readPieces rest).map fun (pieces, rest) => (.char c :: pieces, rest) := by
  have hunit : letter ≠ 'u' := by
    rintro rfl
    cases hletter
  rw [readPieces, hletter]
  · cases readPieces rest <;> rfl
  · intro a b c d tail hother
    exact absurd hother hunit

theorem readPieces_unit {code : Nat} (hcode : code < 32) :
    readPieces ('\\' :: 'u' :: (fourDigits code ++ rest)) =
      (readPieces rest).map fun (pieces, rest) => (.unit code :: pieces, rest) := by
  have hdigits := hexValue?_fourDigits hcode
  unfold fourDigits at hdigits ⊢
  simp only [List.cons_append, List.nil_append, readPieces, hdigits]
  cases readPieces rest <;> rfl

theorem readPieces_self {c : Char} (hquote : c ≠ '"') (hslash : c ≠ '\\')
    (hcontrol : ¬ c.toNat < 32) :
    readPieces (c :: rest) =
      (readPieces rest).map fun (pieces, rest) => (.char c :: pieces, rest) := by
  have hstays : (decide (c.toNat < 32) || c == '\\') = false := by simp [hcontrol, hslash]
  rw [readPieces]
  · simp only [hstays, Bool.false_eq_true, if_false]
    cases readPieces rest <;> rfl
  · intro hsame
    exact absurd hsame hquote
  · intro _ _ _ _ _ hsame
    exact absurd hsame hslash
  · intro _ _ hsame
    exact absurd hsame hslash

/-- Every character is read as one piece. -/
theorem readPieces_escape (c : Char) (rest : List Char) :
    readPieces (escape c ++ rest) =
      (readPieces rest).map fun (pieces, rest) => (pieceOf c :: pieces, rest) := by
  unfold escape
  split_ifs with hquote hslash hback htab hline hfeed hreturn hcontrol
  · subst hquote
    exact readPieces_letter rfl
  · subst hslash
    exact readPieces_letter rfl
  · subst hback
    exact readPieces_letter rfl
  · subst htab
    exact readPieces_letter rfl
  · subst hline
    exact readPieces_letter rfl
  · subst hfeed
    exact readPieces_letter rfl
  · subst hreturn
    exact readPieces_letter rfl
  · have hpiece : pieceOf c = .unit c.toNat := by
      simp [pieceOf, hcontrol, hback, htab, hline, hfeed, hreturn]
    rw [hpiece]
    exact readPieces_unit hcontrol
  · have hpiece : pieceOf c = .char c := if_neg fun hunit => hcontrol hunit.1
    rw [hpiece]
    exact readPieces_self hquote hslash hcontrol

theorem readPieces_flatMap (text rest : List Char) :
    readPieces (text.flatMap escape ++ '"' :: rest) = some (text.map pieceOf, rest) := by
  induction text with
  | nil => rfl
  | cons c text ih =>
      rw [List.flatMap_cons, List.append_assoc, readPieces_escape, ih]
      rfl

/-- A unit of a control character is no half of a pair. -/
theorem spell?_unit {code : Nat} (hcode : code < 32) (pieces : List Piece) :
    spell? (.unit code :: pieces) = (spell? pieces).map (Char.ofNat code :: ·) := by
  have hhigh : ¬ (0xD800 ≤ code ∧ code < 0xDC00) := by omega
  have hlow : ¬ (0xDC00 ≤ code ∧ code < 0xE000) := by omega
  have hunpaired : ¬ (0xD800 ≤ code ∧ code < 0xE000) := by omega
  cases pieces with
  | nil => simp [spell?, hunpaired]
  | cons piece pieces =>
      cases piece with
      | char c => simp [spell?, hunpaired]
      | unit low => rw [spell?, if_neg hhigh, if_neg hlow]

theorem spell?_map (text : List Char) : spell? (text.map pieceOf) = some text := by
  induction text with
  | nil => rfl
  | cons c text ih =>
      rw [List.map_cons]
      by_cases hunit : c.toNat < 32 ∧ c ∉ ['\x08', '\t', '\n', '\x0c', '\r']
      · rw [pieceOf, if_pos hunit]
        rw [spell?_unit hunit.1, ih, Char.ofNat_toNat]
        rfl
      · rw [pieceOf, if_neg hunit, spell?, ih]
        rfl

theorem readString_renderText (text : String) (rest : List Char) :
    readString (text.toList.flatMap escape ++ '"' :: rest) = some (some text, rest) := by
  simp only [readString, readPieces_flatMap]
  simp [spell?_map]

/-! ## Numbers -/

/-- Whether a text begins with a character that can follow a value inside a tree, if it goes on at
all. -/
def Delimited (rest : List Char) : Prop :=
  ∀ c ∈ rest.head?, c ∈ [',', ']', '}']

theorem delimited_nil : Delimited [] :=
  nofun

theorem delimited_cons {c : Char} (hc : c ∈ [',', ']', '}']) : Delimited (c :: rest) := by
  intro first hfirst
  cases hfirst
  exact hc

theorem isDigit_of_mem_renderNat {n : Nat} {c : Char} (hc : c ∈ renderNat n) : c.isDigit :=
  Nat.isDigit_of_mem_toDigits (by decide) (by decide) hc

theorem decimalValue_renderNat (n : Nat) : decimalValue (renderNat n) = n :=
  Nat.ofDigitChars_toDigits (by decide) (by decide)

/-- Only zero is written with a zero in front. -/
theorem head?_renderNat {n : Nat} (hzero : (renderNat n).head? = some '0') : n = 0 := by
  induction n using Nat.strongRecOn with
  | ind n ih =>
      unfold renderNat at hzero ih
      rw [Nat.toDigits_eq_if (by decide)] at hzero
      split at hzero
      · simpa using hzero
      · rename_i hlarge
        obtain ⟨first, hfirst⟩ : ∃ first, (Nat.toDigits 10 (n / 10)).head? = some first :=
          ⟨_, List.head?_eq_some_head Nat.toDigits_ne_nil⟩
        rw [List.head?_append, hfirst, Option.some_or] at hzero
        have hquotient : n / 10 = 0 := ih (n / 10) (by omega) (hfirst.trans hzero)
        omega

theorem Delimited.not_isDigit (hrest : Delimited rest) :
    rest.takeWhile Char.isDigit = [] ∧ rest.dropWhile Char.isDigit = rest := by
  cases rest with
  | nil => exact ⟨rfl, rfl⟩
  | cons c rest =>
      have hdigit : ¬ c.isDigit := by
        have hc := hrest c rfl
        simp only [List.mem_cons, List.not_mem_nil, or_false] at hc
        rcases hc with rfl | rfl | rfl <;> decide
      exact ⟨List.takeWhile_cons_of_neg hdigit, List.dropWhile_cons_of_neg hdigit⟩

theorem readDigits_append {digits : List Char} (hdigits : ∀ c ∈ digits, c.isDigit)
    (hsome : digits ≠ []) (hrest : Delimited rest) :
    readDigits (digits ++ rest) = some (digits, rest) := by
  obtain ⟨htakeRest, hdropRest⟩ := hrest.not_isDigit
  have htake : (digits ++ rest).takeWhile Char.isDigit = digits := by
    rw [List.takeWhile_append_of_pos hdigits, htakeRest, List.append_nil]
  have hdrop : (digits ++ rest).dropWhile Char.isDigit = rest := by
    rw [List.dropWhile_append_of_pos hdigits, hdropRest]
  unfold readDigits
  rw [htake, hdrop]
  cases digits with
  | nil => exact absurd rfl hsome
  | cons => rfl

theorem readWhole_renderNat (n : Nat) (hrest : Delimited rest) :
    readWhole (renderNat n ++ rest) = some (renderNat n, rest) := by
  have hdigits := readDigits_append (fun c => isDigit_of_mem_renderNat (n := n))
    Nat.toDigits_ne_nil hrest
  have hnormal : ¬ ((renderNat n).head? = some '0' ∧ renderNat n ≠ ['0']) := by
    rintro ⟨hzero, hmore⟩
    rw [head?_renderNat hzero] at hmore
    exact hmore rfl
  simp only [readWhole, hdigits]
  exact if_neg hnormal

/-- After a delimiter a number has neither a fraction nor an exponent. -/
theorem readSuffixes_of_delimited (hrest : Delimited rest) :
    readFraction rest = some (none, rest) ∧ readExponent rest = some (none, rest) := by
  cases rest with
  | nil => exact ⟨rfl, rfl⟩
  | cons c rest =>
      have hc := hrest c rfl
      simp only [List.mem_cons, List.not_mem_nil, or_false] at hc
      rcases hc with rfl | rfl | rfl <;> exact ⟨rfl, rfl⟩

theorem readMagnitude_renderNat (negative : Bool) (n : Nat) (hrest : Delimited rest) :
    readMagnitude negative (renderNat n ++ rest) = some (.int negative n, rest) := by
  obtain ⟨hfraction, hexponent⟩ := readSuffixes_of_delimited hrest
  simp [readMagnitude, readWhole_renderNat n hrest, hfraction, hexponent, decimalValue_renderNat]

end FeeDistribution.Json
