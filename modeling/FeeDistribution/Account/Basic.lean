import Std.Data.ExtTreeMap
import FeeDistribution.Text.Hex

/-!
# Accounts

An account is named by 32 bytes and ordered bytewise.  It is written as 64 hexadecimal digits; in
messages for people the first twelve stand for it.
-/

namespace FeeDistribution

/-- A participant, owner, relayer or delegate: 32 bytes. -/
structure Account where
  /-- The bytes, in the order in which they are compared and written. -/
  bytes : List UInt8
  /-- There are 32 of them. -/
  length_bytes : bytes.length = 32
deriving DecidableEq

namespace Account

/-- Accounts compare as their bytes do, the first difference deciding. -/
instance : Ord Account where
  compare a b := compare a.bytes b.bytes

instance : Std.TransOrd Account where
  eq_swap {a b} := @Std.OrientedCmp.eq_swap (List UInt8) compare _ a.bytes b.bytes
  isLE_trans {a b c} := @Std.TransCmp.isLE_trans (List UInt8) compare _ a.bytes b.bytes c.bytes

instance : Std.LawfulEqOrd Account where
  compare_self {a} := @Std.ReflCmp.compare_self (List UInt8) compare _ a.bytes
  eq_of_compare {a b} h := by
    have hbytes : a.bytes = b.bytes :=
      @Std.LawfulEqCmp.eq_of_compare (List UInt8) compare _ a.bytes b.bytes h
    cases a
    cases b
    simp_all

/-- The comparison of accounts is the lexicographic order of their bytes. -/
theorem compare_eq_lt {first second : Account} :
    compare first second = .lt ↔ first.bytes < second.bytes := by
  show compare first.bytes second.bytes = .lt ↔ _
  generalize first.bytes = bytes, second.bytes = others
  induction bytes generalizing others with
  | nil => cases others <;> simp
  | cons byte bytes ih =>
      cases others with
      | nil => simp
      | cons other others =>
          rw [List.compare_cons_cons, Ordering.then_eq_lt, ih, List.cons_lt_cons_iff,
            Std.compare_eq_lt, Std.compare_eq_iff_eq]

/-- The account of these bytes, if there are 32. -/
def ofBytes? (bytes : List UInt8) : Option Account :=
  if h : bytes.length = 32 then some ⟨bytes, h⟩ else none

/-- The null account: 32 zero bytes. -/
def zero : Account :=
  ⟨List.replicate 32 0, by simp⟩

instance : Inhabited Account := ⟨zero⟩

/-- The 64 lower-case hexadecimal digits of an account. -/
def hexDigits (account : Account) : List Char :=
  Text.Hex.encode account.bytes

/-- The written form of an account. -/
def hex (account : Account) : String :=
  String.ofList account.hexDigits

/-- The first twelve digits, by which messages name an account. -/
def short (account : Account) : String :=
  String.ofList (account.hexDigits.take 12)

end Account

end FeeDistribution
